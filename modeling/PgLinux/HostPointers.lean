import PgLinux.GhostAccess
import PgLinux.MachineMode
import PgLinux.TlbCoherence
import PgLinux.Worker
/-!
# HostPointers — the TLB of the shared copy in another process

`host_base` is an address of the process that filled the entry, and the copy of the CPU in shared memory takes the TLB
along.  A ghost beside the copy knows where the mapping of the filler was, and which host addresses an access has touched.
-/
namespace PgLinux

open Prog

/-! ## The entries of the TLB -/

/-- What a walk leaves, whatever its page. -/
def IsLeafEntry (te : TlbEntry) : Prop :=
  ∃ ramSize va level pte newPte, level < 3 ∧ te = leafEntry ramSize va level pte newPte

def TlbLeaves (c : Cpu) : Prop := ∀ i, (c.tlb i).valid = true → IsLeafEntry (c.tlb i)

theorem allowsLeaves_isLeafEntry : AllowsLeaves fun _ => IsLeafEntry :=
  fun ramSize va level pte newPte hl _ _ => ⟨ramSize, va, level, pte, newPte, hl, rfl⟩

theorem tlbLeaves_zero {c : Cpu} (h : c.tlb = .zero) : TlbLeaves c := by
  intro i hi
  rw [h] at hi
  cases hi

theorem leafEntry_page {va va' : U64} (h : vpnOf va = vpnOf va') (ramSize : U64) (level : Nat) (pte newPte : U64) :
    leafEntry ramSize va level pte newPte = leafEntry ramSize va' level pte newPte := by
  unfold leafEntry
  rw [leafPa_page h, h]

/-- **The pointer of an entry and its frame lead to one address.** -/
theorem IsLeafEntry.pointer {te : TlbEntry} {va b : U64} (h : IsLeafEntry te) (hvpn : te.vpn = vpnOf va)
    (hb : te.host_base = some b) : te.pa va = ramBase + (b + pageOffset va) := by
  obtain ⟨ramSize, va', level, pte, newPte, hl, rfl⟩ := h
  have hpage : vpnOf va' = vpnOf va := hvpn
  rw [leafEntry_page hpage] at hb ⊢
  rw [leafEntry_host hb]
  exact leafFrame_hit hl pte va

/-! ## The shared copy -/

/-- One touch of host memory: where, and the physical address the guest's access translates to. -/
structure Touch where
  host : U64
  pa : Option U64

/-- By slot, where the process that filled it had guest RAM, and what the last access has touched. -/
structure HostView where
  filledAt : BitVec 12 → U64
  touches : List Touch

def HostView.touch (v : HostView) (t : Touch) : HostView := { v with touches := v.touches ++ [t] }

abbrev CopyState := Ghosted HostView

/-- The byte of the mapping at `base` for the translated address. -/
def Own (base ramSize : U64) (t : Touch) : Prop :=
  ∃ pa, t.pa = some pa ∧ inRam ramSize pa = true ∧ t.host = base + (pa - ramBase)

section Copies

variable [NetDevice]

/-- The answer of `rv64_translate`. -/
def translated (c : Cpu) (va : U64) (access : AccessType) : Option U64 :=
  match rv64Translate va access c with
  | .ok pa _ => some pa
  | .error _ _ => none

/-- `rv64_translate` returns the address as it is. -/
def Untranslated (c : Cpu) : Prop := c.priv = privM ∨ satpMode c.csr.satp = satpModeBare

instance (c : Cpu) : Decidable (Untranslated c) := inferInstanceAs (Decidable (_ ∨ _))

/-- Accesses of a process with guest RAM at `base`: its walks fill slots with its own pointers, the fast paths trust those
they find, and the bus goes to its own mapping. -/
def hostGhosts (base : U64) : Ghosts HostView where
  translate va access v c _ g :=
    if v.isSome ∧ ¬ Untranslated c ∧ tlbLookup c va access = none then
      { g with filledAt := setAt g.filledAt (tlbIndex va) base } else g
  fast va access p c _ g := g.touch ⟨g.filledAt (tlbIndex va) + p, translated c va access⟩
  bus pa c _ g := if inRam c.ram_size pa then g.touch ⟨base + (pa - ramBase), some pa⟩ else g

/-- `rv64_cpu_load`, for data or for an instruction, and `cpu_store`. -/
inductive CopyAccess where
  | load (va : U64) (size : Nat) (exec : Bool)
  | store (va : U64) (size : Nat) (val : U64)

def CopyAccess.va : CopyAccess → U64
  | .load va _ _ => va
  | .store va _ _ => va

def CopyAccess.access : CopyAccess → AccessType
  | .load _ _ exec => if exec then .exec else .read
  | .store _ _ _ => .write

/-- Where in RAM the fast path goes. -/
def CopyAccess.fast (a : CopyAccess) (c : Cpu) : Option U64 :=
  match a with
  | .load va size _ => loadFast c va size a.access
  | .store va size _ => storeFast c va size

/-- The access, by a process with guest RAM at `base`. -/
def CopyAccess.run (base : U64) (s : CopyState) (a : CopyAccess) : CopyState :=
  let s : CopyState := ⟨s.cpu, ⟨s.ghost.filledAt, []⟩⟩
  match a with
  | .load va size _ => final (loadG (hostGhosts base) va size a.access s)
  | .store va size val => final (storeG (hostGhosts base) va size val s)

variable [HostFp]

/-- The worker's machine takes a step, or a command puts something behind its bus or into its debug state. -/
inductive WorkerMove : Cpu → Cpu → Prop
  | step {c c' : Cpu} (h : MachineStep c c') : WorkerMove c c'
  | command (c : Cpu) (b : Bus) (d : Dbg) : WorkerMove c { c with bus := b, dbg := d }

/-- What backends can find in the shared copy, by where the worker has guest RAM. -/
inductive Copied (worker : U64) : CopyState → Prop
  /-- The end of a command.  BOOT leaves no entry in the TLB. -/
  | sync {c c' : Cpu} (hboot : c.tlb = .zero) (hrun : Relation.ReflTransGen WorkerMove c c') (mem : BlkMem) :
    Copied worker ⟨c'.image.attach mem, ⟨fun _ => worker, []⟩⟩
  /-- Memory is the guest's and goes on; `ensure_frontend_ram` writes the RAM size. -/
  | attach {s : CopyState} (h : Copied worker s) (ramSize : U64) (mem : BlkMem) :
    Copied worker { s with cpu := { s.cpu.attach mem with ram_size := ramSize } }
  | access {s : CopyState} (h : Copied worker s) (base : U64) (a : CopyAccess) : Copied worker (a.run base s)

theorem WorkerMove.tlbLeaves {c c' : Cpu} (h : WorkerMove c c') (hc : TlbLeaves c) : TlbLeaves c' := by
  cases h with
  | step h => exact (h.slots allowsLeaves_isLeafEntry).valid hc
  | command b d => exact hc

omit [HostFp] in
theorem CopyAccess.run_tlbLeaves (base : U64) {s : CopyState} (a : CopyAccess) (h : TlbLeaves s.cpu) :
    TlbLeaves (a.run base s).cpu := by
  have hrules := slotMove_rules allowsLeaves_isLeafEntry
  cases a with
  | load va size exec =>
    have hcpu := (erases_load (hostGhosts base) va size (CopyAccess.load va size exec).access).final
      ⟨s.cpu, ⟨s.ghost.filledAt, []⟩⟩
    unfold CopyAccess.run
    rw [hcpu]
    exact (hrules.load va size _ s.cpu).valid h
  | store va size val =>
    have hcpu := (erases_store (hostGhosts base) va size val).final ⟨s.cpu, ⟨s.ghost.filledAt, []⟩⟩
    unfold CopyAccess.run
    rw [hcpu]
    exact (hrules.store va size val s.cpu).valid h

/-- Every entry of the copy is what a walk has left. -/
theorem Copied.tlbLeaves {w : U64} {s : CopyState} (h : Copied w s) : TlbLeaves s.cpu := by
  induction h with
  | sync hboot hrun mem =>
    have hleaves := tlbLeaves_zero hboot
    induction hrun with
    | refl => exact hleaves
    | tail _ hstep ih => exact hstep.tlbLeaves ih
  | attach _ ramSize mem ih => exact ih
  | access _ base a ih => exact a.run_tlbLeaves base ih

/-! ## The fast paths -/

omit [HostFp] [NetDevice] in
/-- A hit of a fast path is a hit of `rv64_translate`. -/
theorem CopyAccess.fast_hit {a : CopyAccess} {c : Cpu} {p : U64} (h : a.fast c = some p) :
    (c.tlbEntry a.va).hits a.va = true ∧ tlbLookup c a.va a.access = some ((c.tlbEntry a.va).pa a.va) ∧
      ∃ b, (c.tlbEntry a.va).host_base = some b ∧ p = b + pageOffset a.va := by
  cases a with
  | load va size exec =>
    obtain ⟨hc, hload⟩ := Option.ite_none_right_eq_some.1 h
    obtain ⟨b, hb, rfl⟩ := Option.map_eq_some_iff.1 hload
    simp only [Bool.and_eq_true] at hc
    obtain ⟨⟨⟨hit, hok⟩, hpriv⟩, -⟩ := hc
    refine ⟨hit, if_pos ?_, b, hb, rfl⟩
    cases exec <;> simp_all [tlbAllows, accessOk, CopyAccess.access, CopyAccess.va]
  | store va size val =>
    obtain ⟨hc, hstore⟩ := Option.ite_none_right_eq_some.1 h
    obtain ⟨b, hb, rfl⟩ := Option.map_eq_some_iff.1 hstore
    simp only [Bool.and_eq_true] at hc
    obtain ⟨⟨⟨hit, hw, hd⟩, hpriv⟩, -⟩ := hc
    refine ⟨hit, if_pos ?_, b, hb, rfl⟩
    simp_all [tlbAllows, accessOk, CopyAccess.access, CopyAccess.va]

omit [HostFp]

theorem translated_untranslated {c : Cpu} (h : Untranslated c) (va : U64) (access : AccessType) :
    translated c va access = some va := by
  unfold translated
  rcases h with h | h
  · rw [rv64Translate_machine h]
  · rw [rv64Translate_bare h]

/-- **Where a fast path goes in RAM, `rv64_translate` goes too.** -/
theorem translated_fast {a : CopyAccess} {c : Cpu} {p : U64} (hleaves : TlbLeaves c) (h : a.fast c = some p)
    (hpaged : ¬ Untranslated c) : translated c a.va a.access = some (ramBase + p) := by
  obtain ⟨hit, hlookup, b, hb, rfl⟩ := a.fast_hit h
  obtain ⟨hp, hs⟩ := not_or.1 hpaged
  unfold TlbEntry.hits at hit
  rw [Bool.and_eq_true, beq_iff_eq] at hit
  have hentry : IsLeafEntry (c.tlbEntry a.va) := hleaves _ hit.1
  unfold translated
  rw [rv64Translate_hit hp hs hlookup]
  exact congrArg some (hentry.pointer hit.2 hb)

/-- The hit at `p` leads into the mapping at `base`: an untranslated one to the address itself, any other through a slot
that a process with its mapping there has filled. -/
def HitsOwn (base : U64) (s : CopyState) (va p : U64) : Prop :=
  if Untranslated s.cpu then
    inRam s.cpu.ram_size va = true ∧ s.ghost.filledAt (tlbIndex va) + p = base + (va - ramBase)
  else inRam s.cpu.ram_size (ramBase + p) = true ∧ s.ghost.filledAt (tlbIndex va) = base

/-- What a hit touches is the process's own exactly when the slot leads there. -/
theorem own_fast {base : U64} {s : CopyState} {a : CopyAccess} {p : U64} (hleaves : TlbLeaves s.cpu)
    (h : a.fast s.cpu = some p) :
    Own base s.cpu.ram_size ⟨s.ghost.filledAt (tlbIndex a.va) + p, translated s.cpu a.va a.access⟩ ↔
      HitsOwn base s a.va p := by
  unfold Own HitsOwn
  by_cases hu : Untranslated s.cpu
  · simp [translated_untranslated hu, hu]
  · have hpa : ramBase + p - ramBase = p := by rw [BitVec.add_comm, BitVec.add_sub_cancel]
    simp [translated_fast hleaves h hu, hu, hpa]

/-! ## The slow paths -/

/-- Nothing but the process's own RAM is touched. -/
structure OwnMove (base : U64) (s t : CopyState) : Prop where
  size : t.cpu.ram_size = s.cpu.ram_size
  own : (∀ u ∈ s.ghost.touches, Own base s.cpu.ram_size u) → ∀ u ∈ t.ghost.touches, Own base s.cpu.ram_size u

instance (base : U64) : IsPreorder CopyState (OwnMove base) where
  refl _ := ⟨rfl, id⟩
  trans := by
    rintro s t u ⟨hsize, hown⟩ ⟨hsize', hown'⟩
    rw [hsize] at hown'
    exact ⟨hsize'.trans hsize, hown' ∘ hown⟩

/-- The bus goes to the process's own mapping. -/
theorem ownMove_bus (base pa : U64) {α : Type} {m : Access α} (hsize : ∀ c, (final (m c)).ram_size = c.ram_size) :
    Leads (OwnMove base) (ghosted (fun _ => (hostGhosts base).bus pa) m) := by
  intro s
  obtain ⟨v, hfin⟩ := final_ghosted (fun _ => (hostGhosts base).bus pa) m s
  rw [hfin]
  refine ⟨hsize s.cpu, fun h u hu => ?_⟩
  unfold hostGhosts HostView.touch at hu
  by_cases hram : inRam s.cpu.ram_size pa = true
  · simp only [hram, if_true, List.mem_append, List.mem_singleton] at hu
    rcases hu with hu | rfl
    · exact h u hu
    · exact ⟨pa, rfl, hram, rfl⟩
  · simp only [hram] at hu
    exact h u hu

theorem ownMove_translate (base va : U64) (access : AccessType) :
    Leads (OwnMove base) (translateG (hostGhosts base) va access) := by
  intro s
  obtain ⟨v, hfin⟩ := final_ghosted ((hostGhosts base).translate va access) (rv64Translate va access) s
  have htouches : ((hostGhosts base).translate va access v s.cpu (final (rv64Translate va access s.cpu)) s.ghost).touches =
      s.ghost.touches := by
    unfold hostGhosts
    dsimp only
    split <;> rfl
  unfold translateG
  rw [hfin]
  refine ⟨?_, fun h u hu => h u (htouches ▸ hu)⟩
  obtain ⟨t, b, d, hc⟩ := rv64Translate_frame va access s.cpu
  dsimp only
  rw [hc]

theorem ownMove_rules (base : U64) : GhostRules (hostGhosts base) (OwnMove base) where
  translate := ownMove_translate base
  busLoad pa _ := ownMove_bus base pa fun _ => rfl
  busStore pa _ _ := ownMove_bus base pa fun _ => rfl

/-! ## An access through the copy -/

/-- The machine once a store is logged. -/
def CopyAccess.logged (a : CopyAccess) (c : Cpu) : Cpu :=
  match a with
  | .load _ _ _ => c
  | .store va size val => logStore va size val c

omit [NetDevice] in
theorem CopyAccess.logged_dbg (a : CopyAccess) (c : Cpu) : ∃ d, a.logged c = { c with dbg := d } := by
  cases a with
  | load va size exec => exact ⟨c.dbg, rfl⟩
  | store va size val => exact logStore_dbg va size val c

omit [NetDevice] in
theorem CopyAccess.fast_logged (a : CopyAccess) (c : Cpu) : a.fast (a.logged c) = a.fast c := by
  obtain ⟨d, hd⟩ := a.logged_dbg c
  rw [hd]
  cases a <;> rfl

theorem CopyAccess.run_hit (base : U64) {s : CopyState} {a : CopyAccess} {p : U64} (h : a.fast s.cpu = some p) :
    (a.run base s).ghost.touches =
      [⟨s.ghost.filledAt (tlbIndex a.va) + p, translated (a.logged s.cpu) a.va a.access⟩] := by
  cases a with
  | load va size exec =>
    have hrun := loadG_hit (hostGhosts base) (s := ⟨s.cpu, ⟨s.ghost.filledAt, []⟩⟩) h
    unfold CopyAccess.run
    dsimp only
    rw [hrun]
    rfl
  | store va size val =>
    rw [← CopyAccess.fast_logged] at h
    have hrun := storeAtG_hit (hostGhosts base) (s := ⟨logStore va size val s.cpu, ⟨s.ghost.filledAt, []⟩⟩) h val
    unfold CopyAccess.run
    dsimp only
    rw [storeG_logged, hrun]
    rfl

theorem CopyAccess.run_miss (base : U64) {s : CopyState} {a : CopyAccess} (h : a.fast s.cpu = none) :
    ∀ t ∈ (a.run base s).ghost.touches, Own base s.cpu.ram_size t := by
  cases a with
  | load va size exec =>
    have hrun := loadG_miss (hostGhosts base) (s := ⟨s.cpu, ⟨s.ghost.filledAt, []⟩⟩) h
    have hown := (ownMove_rules base).slowLoad va size (CopyAccess.load va size exec).access
      ⟨s.cpu, ⟨s.ghost.filledAt, []⟩⟩
    unfold CopyAccess.run
    dsimp only
    rw [hrun]
    exact hown.own fun _ hu => by cases hu
  | store va size val =>
    rw [← CopyAccess.fast_logged] at h
    have hrun := storeAtG_miss (hostGhosts base) (s := ⟨logStore va size val s.cpu, ⟨s.ghost.filledAt, []⟩⟩) h val
    have hown := (ownMove_rules base).slowStore va size val ⟨logStore va size val s.cpu, ⟨s.ghost.filledAt, []⟩⟩
    have hsize : (logStore va size val s.cpu).ram_size = s.cpu.ram_size := by
      obtain ⟨d, hd⟩ := logStore_dbg va size val s.cpu
      rw [hd]
    unfold CopyAccess.run
    dsimp only
    rw [storeG_logged, hrun, ← hsize]
    exact hown.own fun _ hu => by cases hu

variable [HostFp]

/-- **An access through the copy touches what it should exactly when the slot it hits, if it hits one, leads to the
process's own mapping.** -/
theorem ownMapping_iff {worker : U64} {s : CopyState} (h : Copied worker s) (base : U64) (a : CopyAccess) :
    (∀ t ∈ (a.run base s).ghost.touches, Own base s.cpu.ram_size t) ↔
      ∀ p, a.fast s.cpu = some p → HitsOwn base s a.va p := by
  cases hfast : a.fast s.cpu with
  | none => exact iff_of_true (CopyAccess.run_miss base hfast) fun _ hp => by cases hp
  | some p =>
    have hone : (∀ q, some p = some q → HitsOwn base s a.va q) ↔ HitsOwn base s a.va p := by simp
    rw [CopyAccess.run_hit base hfast, List.forall_mem_singleton, hone]
    have hlogged := (a.fast_logged s.cpu).trans hfast
    obtain ⟨d, hd⟩ := a.logged_dbg s.cpu
    rw [hd] at hlogged ⊢
    exact own_fast (s := ⟨{ s.cpu with dbg := d }, s.ghost⟩) h.tlbLeaves hlogged

end Copies

/-! ## A worker and a backend -/

section Instances

local instance hostPointersNet : NetDevice := NetDevice.silent
local instance hostPointersFp : HostFp := HostFp.zero

/-- Supervisor mode at 0x40000000, where the superpage shows a jump to itself. -/
def supervisorLoop : Cpu :=
  let c := superpageCpu
  { c with pc := 0x40000000, bus := { c.bus with mem := { c.bus.mem with ram := c.bus.mem.ram.write 0 4 0x6F } } }

/-- The copy once a worker that has guest RAM at 0x10000 has run the loop. -/
def supervisorCopy : CopyState :=
  let c := rv64Step supervisorLoop
  ⟨c.image.attach c.bus.mem, ⟨fun _ => 0x10000, []⟩⟩

theorem supervisorCopy_copied : Copied 0x10000 supervisorCopy :=
  .sync (c := supervisorLoop) rfl (.single (.step (.step supervisorLoop))) _

/-- The fetch that `vm_disasm` makes of the loop. -/
def loopFetch : CopyAccess := .load 0x40000000 4 true

theorem loopFetch_fast : loopFetch.fast supervisorCopy.cpu = some 0 := by decide +kernel

/-- In the worker the pointer is good. -/
theorem ownMapping_worker : loopFetch.fast supervisorCopy.cpu = some 0 ∧
    ∀ t ∈ (loopFetch.run 0x10000 supervisorCopy).ghost.touches, Own 0x10000 supervisorCopy.cpu.ram_size t := by
  refine ⟨loopFetch_fast, (ownMapping_iff supervisorCopy_copied 0x10000 loopFetch).2 fun p hp => ?_⟩
  rw [loopFetch_fast] at hp
  cases hp
  unfold HitsOwn
  decide +kernel

/-- A backend with guest RAM at 0x20000 fetches from 0x10000. -/
theorem not_ownMapping : ¬ ∀ (worker base : U64) (s : CopyState) (a : CopyAccess), Copied worker s →
    ∀ t ∈ (a.run base s).ghost.touches, Own base s.cpu.ram_size t := by
  intro h
  have hown := h 0x10000 0x20000 supervisorCopy loopFetch supervisorCopy_copied
  have hpaged : ¬ Untranslated supervisorCopy.cpu := by decide +kernel
  rw [CopyAccess.run_hit 0x20000 loopFetch_fast, List.forall_mem_singleton] at hown
  have hhits := (own_fast supervisorCopy_copied.tlbLeaves loopFetch_fast).1 hown
  unfold HitsOwn at hhits
  rw [if_neg hpaged] at hhits
  exact absurd hhits.2 (by decide)

end Instances

end PgLinux
