import PgLinux.Rules
import PgLinux.Walk
/-!
# MachineMode — what machine mode sees of the TLB

The fast paths look at the TLB in every mode, and traps do not flush it.  Machine mode fills no entry, so what it sees
are the entries that were there when a trap entered it.
-/
namespace PgLinux

open Prog

/-! ## Entries -/

/-- What a walk can have put into slot `i`. -/
def Filled (i : BitVec 12) (te : TlbEntry) : Prop :=
  ∃ va, te.vpn = vpnOf va ∧ tlbIndex va = i ∧ (pteR te.perm = true ∨ pteX te.perm = true)

def TlbFilled (c : Cpu) : Prop := ∀ i, (c.tlb i).valid = true → Filled i (c.tlb i)

/-- The entry maps its page of RAM to itself. -/
def IdentityEntry (te : TlbEntry) : Prop :=
  te.valid = true → ∀ h, te.host_base = some h → ramBase + h = te.vpn <<< 12

def IdentityTlb (c : Cpu) : Prop := ∀ i, IdentityEntry (c.tlb i)

/-- Loads, stores, fetches and translations of `va` go to physical `va`. -/
structure MachinePhysical [NetDevice] (c : Cpu) : Prop where
  load : ∀ va size access p, loadFast c va size access = some p → ramBase + p = va
  store : ∀ va size p, storeFast c va size = some p → ramBase + p = va
  translate : ∀ va access, rv64Translate va access c = .ok va c

theorem hit_address {te : TlbEntry} {va h : U64} (hid : IdentityEntry te) (hit : te.hits va = true)
    (hh : te.host_base = some h) : ramBase + (h + pageOffset va) = va := by
  unfold TlbEntry.hits at hit
  rw [Bool.and_eq_true, beq_iff_eq] at hit
  rw [← BitVec.add_assoc, hid hit.1 h hh, hit.2]
  exact page_add_offset va

theorem privOk_machine {c : Cpu} (hp : c.priv = privM) (user : Bool) : privOk c user = true := by
  unfold privOk
  rw [hp]
  rfl

theorem crossesPage_one (va : U64) : crossesPage va 1 = false := by
  have h : (pageOffset va).toNat < 4096 := by
    unfold pageOffset
    rw [BitVec.toNat_and]
    exact Nat.lt_of_le_of_lt Nat.and_le_right (by decide)
  unfold crossesPage
  exact decide_eq_false (by omega)

/-- **Machine mode is physical exactly when the TLB is the identity.** -/
theorem machinePhysical_iff_identityTlb [NetDevice] {c : Cpu} (hp : c.priv = privM) (hf : TlbFilled c) :
    MachinePhysical c ↔ IdentityTlb c := by
  constructor
  · intro hphys i hvalid h hh
    obtain ⟨va, hvpn, hi, hperm⟩ := hf i hvalid
    subst hi
    have hit : (c.tlbEntry va).hits va = true := by
      unfold TlbEntry.hits
      rw [Bool.and_eq_true, beq_iff_eq]
      exact ⟨hvalid, hvpn⟩
    have haddr : ramBase + (h + pageOffset va) = va := by
      rcases hperm with hr | hx
      · refine hphys.load va 1 .read _ ?_
        have hok : readOk c (pteR (c.tlbEntry va).perm) (pteX (c.tlbEntry va).perm) = true := by
          unfold readOk
          rw [show pteR (c.tlbEntry va).perm = true from hr]
          rfl
        unfold loadFast
        dsimp only
        rw [if_pos (by rw [hit, if_neg (by decide), hok, privOk_machine hp, crossesPage_one]; rfl)]
        exact congrArg (Option.map fun h => h + pageOffset va) hh
      · refine hphys.load va 1 .exec _ ?_
        unfold loadFast
        dsimp only
        rw [if_pos (by rw [hit, if_pos rfl, show pteX (c.tlbEntry va).perm = true from hx, privOk_machine hp,
          crossesPage_one]; rfl)]
        exact congrArg (Option.map fun h => h + pageOffset va) hh
    have hsplit : vpnOf va <<< 12 + pageOffset va = va := page_add_offset va
    rw [hvpn]
    rw [← BitVec.add_assoc] at haddr
    exact (BitVec.add_left_inj _).1 (haddr.trans hsplit.symm)
  · intro hid
    refine ⟨fun va size access p hload => ?_, fun va size p hstore => ?_, fun va access => rv64Translate_machine hp va access⟩
    · obtain ⟨hc, hload⟩ := Option.ite_none_right_eq_some.1 hload
      simp only [Bool.and_eq_true] at hc
      obtain ⟨b, hb, rfl⟩ := Option.map_eq_some_iff.1 hload
      exact hit_address (hid _) hc.1.1.1 hb
    · obtain ⟨hc, hstore⟩ := Option.ite_none_right_eq_some.1 hstore
      simp only [Bool.and_eq_true] at hc
      obtain ⟨b, hb, rfl⟩ := Option.map_eq_some_iff.1 hstore
      exact hit_address (hid _) hc.1.1.1 hb

/-! ## What a move does to the TLB -/

/-- Each entry is kept, dropped, or one that `P` allows in its slot. -/
def SlotMove (P : BitVec 12 → TlbEntry → Prop) (c c' : Cpu) : Prop :=
  ∀ i, c'.tlb i = c.tlb i ∨ (c'.tlb i).valid = false ∨ P i (c'.tlb i)

/-- `P` allows what a walk leaves. -/
def AllowsLeaves (P : BitVec 12 → TlbEntry → Prop) : Prop :=
  ∀ ramSize va level pte newPte, level < 3 → pteReserved pte = false → pteLeaf pte = true →
    P (tlbIndex va) (leafEntry ramSize va level pte newPte)

section Slots

variable {P : BitVec 12 → TlbEntry → Prop} {c c' : Cpu}

theorem slotMove_of_tlb (htlb : c'.tlb = c.tlb) : SlotMove P c c' := fun i => .inl (congrFun htlb i)

theorem zero_invalid (htlb : c'.tlb = .zero) (i : BitVec 12) : (c'.tlb i).valid = false := by
  rw [htlb]
  rfl

theorem slotMove_of_zero (htlb : c'.tlb = .zero) : SlotMove P c c' := fun i => .inr (.inl (zero_invalid htlb i))

instance : IsPreorder Cpu (SlotMove P) where
  refl _ := slotMove_of_tlb rfl
  trans := by
    intro c c' c'' h h' i
    rcases h' i with heq | hrest
    · rw [heq]
      exact h i
    · exact .inr hrest

/-- What holds of every valid entry goes on to hold. -/
theorem SlotMove.valid (h : SlotMove P c c') (hc : ∀ i, (c.tlb i).valid = true → P i (c.tlb i)) :
    ∀ i, (c'.tlb i).valid = true → P i (c'.tlb i) := by
  intro i hi
  rcases h i with heq | hdrop | hfill
  · rw [heq] at hi ⊢
    exact hc i hi
  · rw [hdrop] at hi
    cases hi
  · exact hfill

theorem slotMove_fill (hP : AllowsLeaves P) (c : Cpu) (va : U64) {level : Nat} {pte : U64} (newPte : U64) (hl : level < 3)
    (hres : pteReserved pte = false) (hleaf : pteLeaf pte = true) : SlotMove P c (c.fill va level pte newPte) := by
  intro i
  unfold Cpu.fill setAt
  by_cases hi : i = tlbIndex va
  · rw [hi]
    simp only [if_pos]
    exact .inr (.inr (hP c.ram_size va level pte newPte hl hres hleaf))
  · exact .inl (if_neg hi)

end Slots

/-- Entries are kept, dropped, or filled by a walk; machine mode only keeps and drops. -/
structure TlbMove (c c' : Cpu) : Prop where
  filled : ∀ i, c'.tlb i = c.tlb i ∨ (c'.tlb i).valid = false ∨ Filled i (c'.tlb i)
  machine : c.priv = privM → c'.priv = privM ∧ ∀ i, c'.tlb i = c.tlb i ∨ (c'.tlb i).valid = false

theorem tlbMove_of_tlb {c c' : Cpu} (htlb : c'.tlb = c.tlb) (hp : c.priv = privM → c'.priv = privM) : TlbMove c c' :=
  ⟨slotMove_of_tlb htlb, fun h => ⟨hp h, fun _ => .inl (congrFun htlb _)⟩⟩

theorem tlbMove_of_zero {c c' : Cpu} (htlb : c'.tlb = .zero) (hp : c.priv = privM → c'.priv = privM) : TlbMove c c' :=
  ⟨slotMove_of_zero htlb, fun h => ⟨hp h, fun i => .inr (zero_invalid htlb i)⟩⟩

instance : IsPreorder Cpu TlbMove where
  refl _ := tlbMove_of_tlb rfl id
  trans := by
    intro c c' c'' h h'
    refine ⟨trans_of (SlotMove Filled) h.filled h'.filled, fun hp => ?_⟩
    obtain ⟨hp', hkeep⟩ := h.machine hp
    obtain ⟨hp'', hkeep'⟩ := h'.machine hp'
    refine ⟨hp'', fun i => ?_⟩
    rcases hkeep' i with heq | hdrop
    · rw [heq]
      exact hkeep i
    · exact .inr hdrop

theorem trap_machine {c : Cpu} (hp : c.priv = privM) (cause tval : U64) : (trap c cause tval).priv = privM := by
  have hlog : (c.logTrap cause tval).priv = c.priv := by
    unfold Cpu.logTrap
    split <;> rfl
  have hS : trapToS (c.logTrap cause tval) cause = false := by
    unfold trapToS
    rw [if_pos (hlog.trans hp)]
  unfold trap
  dsimp only
  rw [if_neg (by rw [hS]; decide)]

@[simp] theorem logTrap_tlb (c : Cpu) (cause tval : U64) : (c.logTrap cause tval).tlb = c.tlb := by
  unfold Cpu.logTrap
  split <;> rfl

@[simp] theorem trap_tlb (c : Cpu) (cause tval : U64) : (trap c cause tval).tlb = c.tlb := by
  unfold trap
  dsimp only
  split <;> exact logTrap_tlb c cause tval

theorem csrWrite_tlb (c : Cpu) (csr : BitVec 12) (val : U64) :
    (csrWrite c csr val).tlb = c.tlb ∨ (csrWrite c csr val).tlb = .zero := by
  unfold csrWrite
  split
  · exact .inr rfl
  · split
    · exact .inl rfl
    · split
      · exact .inl rfl
      · split <;> exact .inl rfl

theorem csrWrite_move (c : Cpu) (csr : BitVec 12) (val : U64) : TlbMove c (csrWrite c csr val) := by
  have hp : (csrWrite c csr val).priv = c.priv := by
    obtain ⟨_, _, _, _, h⟩ := csrWrite_frame c csr val
    rw [h]
  rcases csrWrite_tlb c csr val with htlb | htlb
  · exact tlbMove_of_tlb htlb hp.trans
  · exact tlbMove_of_zero htlb hp.trans

theorem allowsLeaves_filled : AllowsLeaves Filled := by
  intro ramSize va level pte newPte _ hres hleaf
  refine ⟨va, rfl, rfl, ?_⟩
  have hR : pteR ((pte &&& permMask).setWidth 8) = pteR pte := perm_getLsbD (by decide) pte
  have hX : pteX ((pte &&& permMask).setWidth 8) = pteX pte := perm_getLsbD (by decide) pte
  show pteR ((pte &&& permMask).setWidth 8) = true ∨ pteX ((pte &&& permMask).setWidth 8) = true
  rw [hR, hX]
  exact pteLeaf_readable hres hleaf

theorem returned_tlb {c c' : Cpu} (h : Returned c c') : c'.tlb = c.tlb := by
  rcases h with h | h
  · exact h.tlb
  · refine h.tlb.trans ?_
    unfold sret backfill
    dsimp only
    split <;> rfl

section Moves

variable [NetDevice] {P : BitVec 12 → TlbEntry → Prop}

theorem slotMove_translate (hP : AllowsLeaves P) (va : U64) (access : AccessType) :
    Leads (SlotMove P) (rv64Translate va access) :=
  leads_rv64Translate (.of_any fun _ _ => slotMove_of_tlb rfl) (fun c va _ _ new => slotMove_fill hP c va new) va access

theorem slotMove_rules (hP : AllowsLeaves P) : StepRules (SlotMove P) where
  core h := slotMove_of_tlb h.tlb
  load := leads_rv64CpuLoad (.of_any fun _ _ => slotMove_of_tlb rfl) (slotMove_translate hP)
  store := leads_cpuStore (.of_any fun _ _ => slotMove_of_tlb rfl) (fun _ _ => slotMove_of_tlb rfl) (slotMove_translate hP)
  trap c cause tval := slotMove_of_tlb (trap_tlb c cause tval)
  csrWrite c csr val := (csrWrite_tlb c csr val).elim slotMove_of_tlb slotMove_of_zero
  tlbFlush _ := slotMove_of_zero rfl
  jitFlush _ := slotMove_of_tlb rfl

theorem translate_move (va : U64) (access : AccessType) : Leads TlbMove (rv64Translate va access) := by
  intro c
  by_cases hp : c.priv = privM
  · rw [rv64Translate_machine hp]
    exact refl_of TlbMove c
  · exact ⟨slotMove_translate allowsLeaves_filled va access c, fun h => absurd h hp⟩

theorem tlbMove_rules : StepRules TlbMove where
  core h := tlbMove_of_tlb h.tlb fun hp => h.priv.trans hp
  load va size access := leads_rv64CpuLoad (.of_any fun _ _ => tlbMove_of_tlb rfl id) translate_move va size access
  store va size val :=
    leads_cpuStore (.of_any fun _ _ => tlbMove_of_tlb rfl id) (fun _ _ => tlbMove_of_tlb rfl id) translate_move va size val
  trap c cause tval := tlbMove_of_tlb (trap_tlb c cause tval) fun hp => trap_machine hp cause tval
  csrWrite := csrWrite_move
  tlbFlush _ := tlbMove_of_zero rfl id
  jitFlush _ := tlbMove_of_tlb rfl id

variable [HostFp]

/-- **A move of the machine fills only what walks fill.** -/
theorem MachineStep.slots (hP : AllowsLeaves P) {c c' : Cpu} (h : MachineStep c c') : SlotMove P c c' := by
  rcases (slotMove_rules hP).machineStep (fun _ _ => slotMove_of_tlb rfl) (fun _ _ => slotMove_of_tlb rfl) h with
    hm | ⟨m, hm, hret⟩
  · exact hm
  · exact trans_of (SlotMove P) hm (slotMove_of_tlb (returned_tlb hret))

/-- From machine mode it fills nothing. -/
theorem MachineStep.slots_machine {c c' : Cpu} (h : MachineStep c c') (hp : c.priv = privM) (i : BitVec 12) :
    c'.tlb i = c.tlb i ∨ (c'.tlb i).valid = false := by
  rcases tlbMove_rules.machineStep (fun _ _ => tlbMove_of_tlb rfl id) (fun _ _ => tlbMove_of_tlb rfl id) h with
    hm | ⟨m, hm, hret⟩
  · exact (hm.machine hp).2 i
  · rw [returned_tlb hret]
    exact (hm.machine hp).2 i

theorem MachineStep.tlbFilled {c c' : Cpu} (h : MachineStep c c') (hf : TlbFilled c) : TlbFilled c' :=
  (h.slots allowsLeaves_filled).valid hf

theorem MachineStep.identityTlb {c c' : Cpu} (h : MachineStep c c') (hp : c.priv = privM) (hid : IdentityTlb c) :
    IdentityTlb c' := by
  intro i hi
  rcases h.slots_machine hp i with heq | hdrop
  · rw [heq] at hi ⊢
    exact hid i hi
  · rw [hdrop] at hi
    cases hi

/-! ## Runs -/

/-- A trap that enters machine mode finds the identity in the TLB. -/
def EntersIdentity (c c' : Cpu) : Prop := c.priv ≠ privM → c'.priv = privM → IdentityTlb c'

theorem machinePhysical_iff_enters : ∀ (cs : List Cpu) (c : Cpu), TlbFilled c → (c.priv = privM → IdentityTlb c) →
    List.IsChain MachineStep (c :: cs) →
    ((∀ d ∈ c :: cs, d.priv = privM → MachinePhysical d) ↔ List.IsChain EntersIdentity (c :: cs))
  | [], c, hf, hid, _ => by
    refine ⟨fun _ => .singleton c, fun _ d hd hp => ?_⟩
    obtain rfl := List.mem_singleton.1 hd
    exact (machinePhysical_iff_identityTlb hp hf).2 (hid hp)
  | d :: cs, c, hf, hid, hrun => by
    obtain ⟨hstep, hrun⟩ := List.isChain_cons_cons.1 hrun
    have hf' := hstep.tlbFilled hf
    rw [List.isChain_cons_cons, List.forall_mem_cons]
    constructor
    · rintro ⟨-, hall⟩
      have hphys := hall d (List.mem_cons_self ..)
      have hid' : d.priv = privM → IdentityTlb d := fun hp => (machinePhysical_iff_identityTlb hp hf').1 (hphys hp)
      exact ⟨fun _ hp => hid' hp, (machinePhysical_iff_enters cs d hf' hid' hrun).1 hall⟩
    · rintro ⟨hent, hrest⟩
      have hid' : d.priv = privM → IdentityTlb d := by
        intro hp
        by_cases hpc : c.priv = privM
        · exact hstep.identityTlb hpc (hid hpc)
        · exact hent hpc hp
      exact ⟨fun hp => (machinePhysical_iff_identityTlb hp hf).2 (hid hp),
        (machinePhysical_iff_enters cs d hf' hid' hrun).2 hrest⟩

/-- **In a run from reset, machine mode is physical in every state exactly when every entry into it finds the identity
in the TLB.** -/
theorem machinePhysical_iff (ram : Mem) (ramSize : U64) (cs : List Cpu)
    (hrun : List.IsChain MachineStep (rv64Init ram ramSize :: cs)) :
    (∀ d ∈ rv64Init ram ramSize :: cs, d.priv = privM → MachinePhysical d) ↔
      List.IsChain EntersIdentity (rv64Init ram ramSize :: cs) := by
  have hf : TlbFilled (rv64Init ram ramSize) := fun i hi => by cases hi
  have hid : IdentityTlb (rv64Init ram ramSize) := fun i hi => by cases hi
  exact machinePhysical_iff_enters cs _ hf (fun _ => hid) hrun

end Moves

/-! ## A page that is not the identity -/

section Alias

local instance aliasNet : NetDevice := NetDevice.silent
local instance aliasFp : HostFp := HostFp.zero

/-- Firmware that turns on paging and returns to user mode, at 0x80000000 in its gigapage at 0xC0000000, where it
makes a call. -/
def aliasProgram : List U32 := [0x00000097, 0x1000B103, 0x18011073, 0x34109073, 0x30200073]

def aliasRam : Mem :=
  let m := programAt aliasProgram 0 fun _ => 0
  ((m.write 0x100 8 0x8000000000080001).write 0x1010 8 0x300000DF).write 0x40000000 4 0x00000073

/-- Back in machine mode, a fetch at 0x80000000 reads 0xC0000000. -/
theorem not_machinePhysical_alias : ∃ c, MachineRun (rv64Init aliasRam 0x80000000) c ∧ c.priv = privM ∧
    ¬ MachinePhysical c := by
  refine ⟨stepTimes 6 (rv64Init aliasRam 0x80000000), stepTimes_run 6 _, by decide +kernel, fun h => ?_⟩
  have hload := h.load 0x80000000 4 .exec 0x40000000 (by decide +kernel)
  revert hload
  decide

/-- The same firmware with a gigapage that is the identity: the call is the word after its MRET. -/
def identityProgram : List U32 := [0x00000097, 0x1000B103, 0x18011073, 0x01808093, 0x34109073, 0x30200073, 0x00000073]

def identityRam : Mem :=
  ((programAt identityProgram 0 fun _ => 0).write 0x100 8 0x8000000000080001).write 0x1010 8 0x200000DF

/-- The call fills the TLB and enters machine mode, which sees the identity there. -/
theorem machinePhysical_ecall : let c := rv64Init identityRam 0x80000000
    (stepTimes 6 c).priv = privU ∧ (stepTimes 7 c).priv = privM ∧ ((stepTimes 7 c).tlbEntry 0x80000000).valid = true ∧
      MachinePhysical (stepTimes 7 c) := by
  intro c
  have hstart : ∀ i < 6, (stepTimes i c).priv = privM := by decide +kernel
  have hentry : ∀ i, ((stepTimes 7 c).tlb i).valid = true →
      ((stepTimes 7 c).tlb i).host_base = some 0 ∧ ((stepTimes 7 c).tlb i).vpn <<< 12 = ramBase := by
    decide +kernel
  have hid : IdentityTlb (stepTimes 7 c) := by
    intro i hi h hh
    obtain ⟨hbase, hvpn⟩ := hentry i hi
    obtain rfl : 0 = h := Option.some.inj (hbase.symm.trans hh)
    rw [hvpn]
    rfl
  have henters : List.IsChain EntersIdentity (c :: stepStates 7 c) := by
    refine stepStates_isChain 7 c fun i hi hp _ => ?_
    obtain rfl | hlt : i = 6 ∨ i < 6 := by omega
    · exact hid
    · exact absurd (hstart i hlt) hp
  have hall := (machinePhysical_iff identityRam 0x80000000 (stepStates 7 c) (stepStates_steps 7 c)).2 henters
  have hpriv : (stepTimes 7 c).priv = privM := by decide +kernel
  exact ⟨by decide +kernel, hpriv, by decide +kernel, hall _ (stepTimes_mem 7 c) hpriv⟩

end Alias

end PgLinux
