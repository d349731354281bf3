import PgLinux.BusConfinement
import PgLinux.HostPointers
/-!
# PointerConfinement — where the host pointers of the TLB lead (`rv64_translate`)

A leaf is made a physical page without a mask, so that a page may be the last one below 2^64.  Its end is 0 then, which the
check of the host pointer takes for an address below the end of RAM.
-/
namespace PgLinux

open Prog

/-! ## One entry -/

/-- The number of the last page below 2^64. -/
def lastPage : U64 := 0xFFFFFFFFFFFFF

/-- What a walk leaves in a machine with `ramSize` bytes of RAM. -/
def IsLeafOf (ramSize : U64) (te : TlbEntry) : Prop :=
  ∃ va level pte newPte, level < 3 ∧ te = leafEntry ramSize va level pte newPte

section Entry

variable {ramSize b : U64} {te : TlbEntry}

/-- The page of a leaf, as a number. -/
theorem IsLeafOf.ppn_lt (h : IsLeafOf ramSize te) : te.ppn.toNat < 2 ^ 52 := by
  obtain ⟨va, level, pte, newPte, -, rfl⟩ := h
  show (leafPa level pte va >>> 12).toNat < 2 ^ 52
  rw [BitVec.toNat_ushiftRight, Nat.shiftRight_eq_div_pow]
  have hlt := (leafPa level pte va).isLt
  omega

theorem IsLeafOf.host (h : IsLeafOf ramSize te) : te.host_base = hostBase ramSize (te.ppn <<< 12) := by
  obtain ⟨va, level, pte, newPte, -, rfl⟩ := h
  rfl

/-- **A host pointer is to a page of RAM exactly when the page is not the last one.** -/
theorem IsLeafOf.inside_iff (hpages : WholePages ramSize) (h : IsLeafOf ramSize te) (hb : te.host_base = some b) :
    (te.ppn ≠ lastPage → b.toNat + 4096 ≤ ramSize.toNat) ∧ (te.ppn = lastPage → ramSize.toNat ≤ b.toNat) := by
  have hppn := h.ppn_lt
  have hfits := hpages.fits
  have hwhole := hpages.pages
  have hbase : ramBase.toNat = 0x80000000 := rfl
  have hpage : (te.ppn <<< 12).toNat = te.ppn.toNat * 4096 := by
    rw [BitVec.toNat_shiftLeft, Nat.shiftLeft_eq]
    exact Nat.mod_eq_of_lt (by omega)
  rw [h.host] at hb
  unfold hostBase at hb
  split at hb
  · next hin =>
    cases hb
    rw [Bool.and_eq_true, decide_eq_true_iff, decide_eq_true_iff, BitVec.le_def, BitVec.le_def, BitVec.toNat_add,
      BitVec.toNat_add, hpage, show (4096 : U64).toNat = 4096 from rfl] at hin
    have hsub : (te.ppn <<< 12 - ramBase).toNat = te.ppn.toNat * 4096 - ramBase.toNat := by
      rw [BitVec.toNat_sub, hpage]
      omega
    have hlast : te.ppn = lastPage ↔ te.ppn.toNat = 2 ^ 52 - 1 := by
      rw [← BitVec.toNat_inj]
      rfl
    rw [hsub, Ne, hlast]
    omega
  · cases hb

end Entry

/-! ## Runs -/

/-- The size of RAM stays, and each entry is kept, cleared or left by a walk. -/
structure PointerMove (c c' : Cpu) : Prop where
  ram_size : c'.ram_size = c.ram_size
  entry : ∀ i, c'.tlb i = c.tlb i ∨ c'.tlb i = .zero ∨ IsLeafOf c.ram_size (c'.tlb i)

theorem pointerMove_of_tlb {c c' : Cpu} (hram : c'.ram_size = c.ram_size) (htlb : c'.tlb = c.tlb) : PointerMove c c' :=
  ⟨hram, fun i => .inl (congrFun htlb i)⟩

theorem pointerMove_of_zero {c c' : Cpu} (hram : c'.ram_size = c.ram_size) (htlb : c'.tlb = .zero) : PointerMove c c' :=
  ⟨hram, fun i => .inr (.inl (congrFun htlb i))⟩

instance : IsPreorder Cpu PointerMove where
  refl _ := pointerMove_of_tlb rfl rfl
  trans := by
    intro c c' c'' h h'
    refine ⟨h'.ram_size.trans h.ram_size, fun i => ?_⟩
    rcases h'.entry i with heq | hzero | hleaf
    · rw [heq]
      exact h.entry i
    · exact .inr (.inl hzero)
    · rw [h.ram_size] at hleaf
      exact .inr (.inr hleaf)

theorem pointerMove_fill (c : Cpu) (va : U64) (level : Nat) (pte newPte : U64) (hl : level < 3) :
    PointerMove c (c.fill va level pte newPte) := by
  refine ⟨rfl, fun i => ?_⟩
  unfold Cpu.fill setAt
  by_cases hi : i = tlbIndex va
  · simp only [hi, if_pos]
    exact .inr (.inr ⟨va, level, pte, newPte, hl, rfl⟩)
  · exact .inl (if_neg hi)

theorem returned_ram_size {c c' : Cpu} (h : Returned c c') : c'.ram_size = c.ram_size := by
  rcases h with h | h
  · exact h.ram_size
  · refine h.ram_size.trans ?_
    unfold sret backfill
    dsimp only
    split <;> rfl

section Runs

variable [NetDevice]

theorem pointerMove_translate (va : U64) (access : AccessType) : Leads PointerMove (rv64Translate va access) :=
  leads_rv64Translate (.of_any fun _ _ => pointerMove_of_tlb rfl rfl)
    (fun c va level pte newPte hl _ _ => pointerMove_fill c va level pte newPte hl) va access

theorem pointerMove_rules : StepRules PointerMove where
  core h := pointerMove_of_tlb h.ram_size h.tlb
  load := leads_rv64CpuLoad (.of_any fun _ _ => pointerMove_of_tlb rfl rfl) pointerMove_translate
  store := leads_cpuStore (.of_any fun _ _ => pointerMove_of_tlb rfl rfl) (fun _ _ => pointerMove_of_tlb rfl rfl)
    pointerMove_translate
  trap c cause tval := by
    refine pointerMove_of_tlb ?_ (trap_tlb c cause tval)
    unfold trap Cpu.logTrap
    dsimp only
    split <;> split <;> rfl
  csrWrite c csr val := by
    have hram : (csrWrite c csr val).ram_size = c.ram_size := by
      obtain ⟨_, _, _, _, h⟩ := csrWrite_frame c csr val
      rw [h]
    rcases csrWrite_tlb c csr val with htlb | htlb
    · exact pointerMove_of_tlb hram htlb
    · exact pointerMove_of_zero hram htlb
  tlbFlush _ := pointerMove_of_zero rfl rfl
  jitFlush _ := pointerMove_of_tlb rfl rfl

variable [HostFp]

theorem MachineStep.pointers {c c' : Cpu} (h : MachineStep c c') : PointerMove c c' := by
  rcases pointerMove_rules.machineStep (fun _ _ => pointerMove_of_tlb rfl rfl) (fun _ _ => pointerMove_of_tlb rfl rfl) h with
    hm | ⟨m, hm, hret⟩
  · exact hm
  · exact trans_of PointerMove hm (pointerMove_of_tlb (returned_ram_size hret) (returned_tlb hret))

theorem MachineRun.pointers {c c' : Cpu} (h : MachineRun c c') : PointerMove c c' := by
  induction h with
  | refl => exact refl_of PointerMove c
  | tail _ hstep ih => exact trans_of PointerMove ih hstep.pointers

/-- In a run from an empty TLB a host pointer is one that a walk has left. -/
theorem MachineRun.leaf {c c' : Cpu} (h : MachineRun c c') (h0 : c.tlb = .zero) {i : BitVec 12} {b : U64}
    (hb : (c'.tlb i).host_base = some b) : IsLeafOf c'.ram_size (c'.tlb i) := by
  have hmove := h.pointers
  rw [hmove.ram_size]
  rcases hmove.entry i with heq | hzero | hleaf
  · rw [heq, h0] at hb
    cases hb
  · rw [hzero] at hb
    cases hb
  · exact hleaf

/-! ## Accesses -/

def CopyAccess.size : CopyAccess → Nat
  | .load _ size _ => size
  | .store _ size _ => size

omit [NetDevice] [HostFp] in
/-- A fast path is inside the page that its entry points to. -/
theorem CopyAccess.fast_page {a : CopyAccess} {c : Cpu} {p : U64} (h : a.fast c = some p) :
    ∃ b, (c.tlbEntry a.va).host_base = some b ∧ p = b + pageOffset a.va ∧ (pageOffset a.va).toNat + a.size ≤ 4096 := by
  have hcross : ∀ {va : U64} {size : Nat}, (!crossesPage va size) = true → (pageOffset va).toNat + size ≤ 4096 := by
    intro va size hc
    rw [Bool.not_eq_true', crossesPage] at hc
    exact Nat.not_lt.1 (of_decide_eq_false hc)
  cases a with
  | load va size exec =>
    obtain ⟨hok, hload⟩ := Option.ite_none_right_eq_some.1 h
    obtain ⟨b, hb, rfl⟩ := Option.map_eq_some_iff.1 hload
    exact ⟨b, hb, rfl, hcross (Bool.and_eq_true_iff.1 hok).2⟩
  | store va size val =>
    obtain ⟨hok, hstore⟩ := Option.ite_none_right_eq_some.1 h
    obtain ⟨b, hb, rfl⟩ := Option.map_eq_some_iff.1 hstore
    exact ⟨b, hb, rfl, hcross (Bool.and_eq_true_iff.1 hok).2⟩

/-- **The fast paths stay in RAM exactly where they do not hit the last page below 2^64**: wherever a run has come to from an
empty TLB, for every load, fetch and store. -/
theorem fast_inside_iff {c c' : Cpu} (h0 : c.tlb = .zero) (hpages : WholePages c.ram_size) (hrun : MachineRun c c')
    {a : CopyAccess} (hsize : 0 < a.size) {p : U64} (hfast : a.fast c' = some p) :
    p.toNat + a.size ≤ c'.ram_size.toNat ↔ (c'.tlbEntry a.va).ppn ≠ lastPage := by
  obtain ⟨b, hb, rfl, hoff⟩ := CopyAccess.fast_page hfast
  have hram := hrun.pointers.ram_size
  have hleaf : IsLeafOf c'.ram_size (c'.tlbEntry a.va) := hrun.leaf h0 hb
  obtain ⟨hin, hout⟩ := hleaf.inside_iff (by rw [hram]; exact hpages) hb
  have hfits := hpages.fits
  rw [← hram] at hfits
  have hbase : ramBase.toNat = 0x80000000 := rfl
  constructor
  · intro hle hlast
    have hge := hout hlast
    have hwhole := hpages.pages
    rw [← hram] at hwhole
    have hb' : b.toNat + 4096 ≤ 2 ^ 64 := by
      rw [hleaf.host, hlast] at hb
      unfold hostBase at hb
      split at hb
      · cases hb
        decide
      · cases hb
    rw [BitVec.toNat_add, Nat.mod_eq_of_lt (by omega)] at hle
    omega
  · intro hne
    have hle := hin hne
    rw [BitVec.toNat_add, Nat.mod_eq_of_lt (by omega)]
    omega

end Runs

/-! ## A guest that maps the last page -/

section Instances

local instance pointerNet : NetDevice := NetDevice.silent
local instance pointerFp : HostFp := HostFp.zero

/-- Supervisor mode at `lw x1, 0(x2)`; x2 is on a page whose leaf has all the bits of its page number set. -/
def lastPageCpu : Cpu :=
  let c := superpageCpu
  let tables := ((c.bus.mem.ram.write 0x1010 8 0x20000801).write 0x2000 8 0x20000C01).write 0x3008 8 0xFFFFFFFFFFFFFCCF
  { c with
    pc := 0x40000000
    x := fun r => if r = 2 then 0x80001000 else 0
    bus := { c.bus with mem := { c.bus.mem with ram := tables.write 0 4 0x00012083 } } }

def lastPageLoad : CopyAccess := .load 0x80001000 4 false

theorem lastPageLoad_fast : lastPageLoad.fast (rv64Step lastPageCpu) = some 0xFFFFFFFF7FFFF000 := by decide

theorem loopFetch_step : loopFetch.fast (rv64Step lastPageCpu) = some 0 := by decide

/-- Once the load has run, the next fetch of the loop is from RAM and the next load of that page is not. -/
theorem fast_inside_lastPage : MachineRun lastPageCpu (rv64Step lastPageCpu) ∧
    0 + 4 ≤ (rv64Step lastPageCpu).ram_size.toNat ∧
    ¬ (0xFFFFFFFF7FFFF000 : U64).toNat + 4 ≤ (rv64Step lastPageCpu).ram_size.toNat := by
  have hrun : MachineRun lastPageCpu (rv64Step lastPageCpu) := .single (.step lastPageCpu)
  have hpages : WholePages lastPageCpu.ram_size := superpage_pages
  refine ⟨hrun, ?_, ?_⟩
  · refine (fast_inside_iff rfl hpages hrun (a := loopFetch) (by decide) loopFetch_step).2 ?_
    decide
  · refine fun hle => (fast_inside_iff rfl hpages hrun (a := lastPageLoad) (by decide) lastPageLoad_fast).1 hle ?_
    decide

end Instances

end PgLinux
