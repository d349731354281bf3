import PgLinux.Atomics
import PgLinux.PageFaults
/-!
# FaultAddress — the trap value of a page fault

`rv64_cpu_load` and `cpu_store` answer with an exception code alone, so every caller reports the first byte of its
access, whichever page it was that faulted.
-/
namespace PgLinux

open Prog

/-! ## What a trap reports -/

structure TrapInfo where
  cause : U64
  tval : U64
  epc : U64
deriving DecidableEq

/-- The trap CSRs of the mode a trap went to. -/
def Cpu.trapInfo (c : Cpu) : TrapInfo :=
  if c.priv = privM then ⟨c.csr.mcause, c.csr.mtval, c.csr.mepc⟩ else ⟨c.csr.scause, c.csr.stval, c.csr.sepc⟩

theorem trapInfo_trap (c : Cpu) (cause tval : U64) : (trap c cause tval).trapInfo = ⟨cause, tval, c.pc⟩ := by
  have hpc : (c.logTrap cause tval).pc = c.pc := by
    unfold Cpu.logTrap
    split <;> rfl
  unfold trap
  dsimp only
  split
  · show TrapInfo.mk cause tval (c.logTrap cause tval).pc = _
    rw [hpc]
  · show TrapInfo.mk cause tval (c.logTrap cause tval).pc = _
    rw [hpc]

def IsPageFault (cause : U64) : Prop :=
  cause = excInsnPageFault ∨ cause = excLoadPageFault ∨ cause = excStorePageFault

instance (cause : U64) : Decidable (IsPageFault cause) := inferInstanceAs (Decidable (_ ∨ _))

/-! ## Accesses -/

/-- A fetch, a load or a store. -/
inductive MemOp where
  | load (va : U64) (size : Nat) (access : AccessType)
  | store (va : U64) (size : Nat) (val : U64)

def MemOp.va : MemOp → U64
  | .load va _ _ => va
  | .store va _ _ => va

def MemOp.size : MemOp → Nat
  | .load _ size _ => size
  | .store _ size _ => size

def MemOp.access : MemOp → AccessType
  | .load _ _ access => access
  | .store _ _ _ => .write

/-- The machine that an access translates on; a store has made its log entry. -/
def MemOp.entry : MemOp → Cpu → Cpu
  | .load _ _ _, c => c
  | .store va size val, c => logStore va size val c

/-- The address whose translation failed. -/
def faultGhosts : Ghosts (Option U64) where
  translate va _ answer _ _ a := answer.elim (some va) fun _ => a
  fast _ _ _ _ _ := id
  bus _ _ _ := id

section Faults

variable [NetDevice]

/-- The access stops with `exc`. -/
def MemOp.Faults : MemOp → Cpu → U64 → Cpu → Prop
  | .load va size access, c, exc, e => rv64CpuLoad va size access c = .error exc e
  | .store va size val, c, exc, e => cpuStore va size val c = .error exc e

/-- The byte at which the access stops. -/
def MemOp.failing : MemOp → Cpu → Option U64
  | .load va size access, c => (final (loadG faultGhosts va size access ⟨c, none⟩)).ghost
  | .store va size val, c => (final (storeG faultGhosts va size val ⟨c, none⟩)).ghost

/-- The access goes on to a second page: its first page translates. -/
def MemOp.SecondPage (op : MemOp) (c : Cpu) : Prop :=
  crossesPage op.va op.size = true ∧ ∃ pa e, rv64Translate op.va op.access (op.entry c) = .ok pa e

/-- The trap value is one of the bytes accessed, in the page that failed. -/
def TvalRight (op : MemOp) (failing tval : U64) : Prop :=
  (∃ i < op.size, tval = op.va + BitVec.ofNat 64 i) ∧ vpnOf tval = vpnOf failing

variable {op : MemOp} {c e : Cpu} {exc : U64}

theorem translateG_failing {va : U64} {access : AccessType} {s t : Ghosted (Option U64)}
    (h : translateG faultGhosts va access s = .error exc t) : exc = faultCode access ∧ t.ghost = some va ∧
      ¬ ∃ pa e, rv64Translate va access s.cpu = .ok pa e := by
  obtain ⟨d, hd, rfl⟩ := ghosted_eq_error.1 h
  refine ⟨rv64Translate_error hd, rfl, ?_⟩
  rintro ⟨pa, e, hok⟩
  rw [hd] at hok
  cases hok

theorem MemOp.Faults.frame (h : op.Faults c exc e) : AccessFrame c e := by
  cases op with
  | load va size access =>
    have hframe := rv64CpuLoad_frame va size access c
    rw [show rv64CpuLoad va size access c = .error exc e from h] at hframe
    exact hframe
  | store va size val =>
    have hframe := cpuStore_frame va size val c
    rw [show cpuStore va size val c = .error exc e from h] at hframe
    exact hframe

/-- A page fault is reported with its address and with the pc of its instruction. -/
structure FaultReported (op : MemOp) (c : Cpu) (pc : U64) (info : TrapInfo) : Prop where
  tval : ∃ a, op.failing c = some a ∧ TvalRight op a info.tval
  epc : info.epc = pc

/-- **Where an access stops**: at its first byte, or at the first byte of the second page. -/
theorem MemOp.Faults.failing (hsize : op.size ≤ 4096) (h : op.Faults c exc e) : exc = faultCode op.access ∧
    (op.failing c = some op.va ∧ ¬ op.SecondPage c ∨
      op.failing c = some (op.va + BitVec.ofNat 64 (pageRest op.va)) ∧ op.SecondPage c) := by
  cases op with
  | load va size access =>
    obtain ⟨t, ht, -⟩ := (erases_load faultGhosts va size access).error (s := ⟨c, none⟩) h
    have hfail : MemOp.failing (.load va size access) c = t.ghost := congrArg (fun r => (final r).ghost) ht
    rw [hfail]
    rcases loadG_stops faultGhosts hsize ht with he | ⟨hcross, r, s', hrun, he⟩
    · obtain ⟨hexc, hghost, hno⟩ := translateG_failing he
      exact ⟨hexc, .inl ⟨hghost, hno ∘ And.right⟩⟩
    · obtain ⟨hexc, hghost, -⟩ := translateG_failing he
      exact ⟨hexc, .inr ⟨hghost, hcross, loadBytesG_first faultGhosts (pageRest_pos va) hrun⟩⟩
  | store va size val =>
    obtain ⟨t, ht, -⟩ := (erases_store faultGhosts va size val).error (s := ⟨c, none⟩) h
    have hfail : MemOp.failing (.store va size val) c = t.ghost := congrArg (fun r => (final r).ghost) ht
    rw [hfail]
    rw [storeG_logged] at ht
    rcases storeAtG_stops faultGhosts hsize ht with he | ⟨hcross, s', hrun, he⟩
    · obtain ⟨hexc, hghost, hno⟩ := translateG_failing he
      exact ⟨hexc, .inl ⟨hghost, hno ∘ And.right⟩⟩
    · obtain ⟨hexc, hghost, -⟩ := translateG_failing he
      exact ⟨hexc, .inr ⟨hghost, hcross, storeBytesG_first faultGhosts (pageRest_pos va) hrun⟩⟩

/-- **The first byte of an access is the right trap value exactly when its own page failed.** -/
theorem MemOp.Faults.reported_iff (hpos : 0 < op.size) (hsize : op.size ≤ 4096) (h : op.Faults c exc e) (cause pc : U64) :
    FaultReported op c pc ⟨cause, op.va, pc⟩ ↔ ¬ op.SecondPage c := by
  have hfirst : ∃ i < op.size, op.va = op.va + BitVec.ofNat 64 i := ⟨0, hpos, (BitVec.add_zero _).symm⟩
  obtain ⟨-, ⟨hfail, hno⟩ | ⟨hfail, hsecond⟩⟩ := h.failing hsize
  · exact iff_of_true ⟨⟨_, hfail, hfirst, rfl⟩, rfl⟩ hno
  · refine iff_of_false ?_ (not_not.2 hsecond)
    rintro ⟨⟨a, ha, hright⟩, -⟩
    rw [hfail] at ha
    cases ha
    have hrest : pageRest op.va < op.size := crossesPage_iff.1 hsecond.1
    exact absurd ((vpnOf_add (by omega)).1 hright.2.symm) (Nat.lt_irrefl _)

end Faults

/-! ## The accesses of a step -/

theorem loadKind_size {f3 : BitVec 3} {size : Nat} {extend : U64 → U64} (h : loadKind f3 = some (size, extend)) :
    0 < size ∧ size ≤ 8 := by
  obtain rfl | rfl | rfl | rfl | rfl | rfl | rfl | rfl := funct3_cases f3 <;> cases h <;> decide

theorem storeSize_size {f3 : BitVec 3} {size : Nat} (h : storeSize f3 = some size) : 0 < size ∧ size ≤ 8 := by
  obtain rfl | rfl | rfl | rfl | rfl | rfl | rfl | rfl := funct3_cases f3 <;> cases h <;> decide

theorem amoBytes_size (insn : U32) : 0 < amoBytes insn ∧ amoBytes insn ≤ 8 := by
  unfold amoBytes
  split <;> decide

section Step

variable [NetDevice]

/-- The access of `insn`, and the machine that it starts on. -/
inductive InsnAccess (insn : U32) (c : Cpu) : MemOp → Cpu → Prop where
  | load {size : Nat} {extend : U64 → U64} (hop : opcode insn = 0x03)
      (hkind : loadKind (funct3 insn) = some (size, extend)) :
      InsnAccess insn c (.load (c.x (rs1 insn) + immI insn) size .read) c
  | store {size : Nat} (hop : opcode insn = 0x23) (hkind : storeSize (funct3 insn) = some size) :
      InsnAccess insn c (.store (c.x (rs1 insn) + immS insn) size (c.x (rs2 insn))) c
  | amoLoad (hop : opcode insn = 0x2F) : InsnAccess insn c (.load (c.x (rs1 insn)) (amoBytes insn) .read) c
  | amoStore {old val : U64} {m : Cpu} (hop : opcode insn = 0x2F)
      (hload : rv64CpuLoad (c.x (rs1 insn)) (amoBytes insn) .read c = .ok old m) (hval : amoStored insn m old = some val) :
      InsnAccess insn c (.store (c.x (rs1 insn)) (amoBytes insn) val) m
  | fpLoad {size : Nat} (hop : opcode insn = 0x07) (hkind : funct3 insn = 2 ∧ size = 4 ∨ funct3 insn = 3 ∧ size = 8) :
      InsnAccess insn c (.load (c.x (rs1 insn) + (insn.sshiftRight 20).signExtend 64) size .read) (markFsDirty c)
  | fpStore {size : Nat} {val : U64} (hop : opcode insn = 0x27)
      (hkind : funct3 insn = 2 ∧ size = 4 ∧ val = c.f (rs2 insn) &&& 0xFFFFFFFF ∨
        funct3 insn = 3 ∧ size = 8 ∧ val = c.f (rs2 insn)) :
      InsnAccess insn c (.store (c.x (rs1 insn) + immS insn) size val) (markFsDirty c)

/-- The accesses of a step: a fetch, the shorter one tried when it fails, and those of the instruction. -/
inductive StepAccess (c : Cpu) : MemOp → Cpu → Prop where
  | fetch : StepAccess c (.load c.pc 4 .exec) (checkBreak c)
  | refetch {exc : U64} {m : Cpu} (h : rv64CpuLoad c.pc 4 .exec (checkBreak c) = .error exc m) :
      StepAccess c (.load c.pc 2 .exec) m
  | insn {word insn : U32} {d m : Cpu} {op : MemOp} (hf : Fetches c word insn d)
      (h : InsnAccess insn (logInsn word d) op m) : StepAccess c op m

theorem InsnAccess.size {insn : U32} {c m : Cpu} {op : MemOp} (h : InsnAccess insn c op m) : 0 < op.size ∧ op.size ≤ 8 := by
  cases h with
  | load _ hkind => exact loadKind_size hkind
  | store _ hkind => exact storeSize_size hkind
  | amoLoad => exact amoBytes_size insn
  | amoStore => exact amoBytes_size insn
  | fpLoad _ hkind => obtain ⟨-, rfl⟩ | ⟨-, rfl⟩ := hkind <;> simp [MemOp.size]
  | fpStore _ hkind => obtain ⟨-, rfl, -⟩ | ⟨-, rfl, -⟩ := hkind <;> simp [MemOp.size]

/-! ## The traps of a step -/

/-- A trap of the instruction at `pc`: one that is no page fault, or that of an access of `A`. -/
def TrapOf (A : MemOp → Cpu → Prop) (pc : U64) (c' : Cpu) : Prop :=
  ∃ d cause tval, c' = trap d cause tval ∧ d.pc = pc ∧
    (¬ IsPageFault cause ∨ ∃ op m e, A op m ∧ op.Faults m cause e ∧ tval = op.va)

def StopsWith {α : Type} (A : MemOp → Cpu → Prop) (pc : U64) (m : Exec α) (c : Cpu) : Prop :=
  ∀ c', m c = .error () c' → TrapOf A pc c'

section Rules

variable {α β : Type} {A : MemOp → Cpu → Prop} {pc : U64} {c : Cpu}

theorem stops_trapM (hpc : c.pc = pc) {cause : U64} (hcause : ¬ IsPageFault cause) (tval : U64) :
    StopsWith A pc (trapM cause tval : Exec α) c := by
  intro c' h
  cases h
  exact ⟨c, cause, tval, rfl, hpc, .inl hcause⟩

theorem stops_illegal (hpc : c.pc = pc) (insn : U32) : StopsWith A pc (illegal insn : Exec α) c :=
  stops_trapM hpc (by decide) _

theorem stops_bind {m : Exec α} {f : α → Exec β} (hm : StopsWith A pc m c)
    (hf : ∀ a d, m c = .ok a d → StopsWith A pc (f a) d) : StopsWith A pc (m >>= f) c := by
  intro c' h
  rcases bind_eq_error.1 h with h | ⟨a, d, hok, h⟩
  · exact hm c' h
  · exact hf a d hok c' h

theorem stops_orTrap {m : Access α} {tval : U64} (hpc : c.pc = pc) (hframe : Leads AccessFrame m)
    (h : ∀ exc e, m c = .error exc e → ∃ op m', A op m' ∧ op.Faults m' exc e ∧ tval = op.va) :
    StopsWith A pc (orTrap m tval) c := by
  intro c' hc'
  obtain ⟨exc, e, he, rfl⟩ := orTrap_eq_error.1 hc'
  have hf := hframe c
  rw [he] at hf
  obtain ⟨t, b, g, rfl⟩ := hf
  obtain ⟨op, m', hop, hfault, htval⟩ := h exc _ he
  exact ⟨_, exc, tval, rfl, hpc, .inr ⟨op, m', _, hop, hfault, htval⟩⟩

theorem stops_ite {p : Prop} [Decidable p] {m n : Exec α} (hm : StopsWith A pc m c) (hn : StopsWith A pc n c) :
    StopsWith A pc (if p then m else n) c := by
  by_cases h : p
  · rwa [if_pos h]
  · rwa [if_neg h]

theorem stops_get_bind {f : Cpu → Exec β} (h : StopsWith A pc (f c) c) : StopsWith A pc (get >>= f) c := h

/-- A part that does not trap. -/
theorem stops_never {m : Exec α} (h : ∀ c', m c ≠ .error () c') : StopsWith A pc m c := fun c' hc' => absurd hc' (h c')

end Rules

section Insn

variable {insn : U32} {nextPc pc : U64} {c : Cpu}

theorem execLoad_stops (hpc : c.pc = pc) (hop : opcode insn = 0x03) :
    StopsWith (InsnAccess insn c) pc (execLoad insn nextPc) c := by
  unfold execLoad
  refine stops_get_bind ?_
  dsimp only
  cases hkind : loadKind (funct3 insn) with
  | none => exact stops_illegal hpc insn
  | some kind =>
    refine stops_bind (stops_orTrap hpc (rv64CpuLoad_frame _ _ _) fun exc e he => ?_) fun _ _ _ =>
      stops_never fun _ h => nomatch h
    exact ⟨_, c, .load hop hkind, he, rfl⟩

theorem execStore_stops (hpc : c.pc = pc) (hop : opcode insn = 0x23) :
    StopsWith (InsnAccess insn c) pc (execStore insn nextPc) c := by
  unfold execStore
  refine stops_get_bind ?_
  dsimp only
  cases hkind : storeSize (funct3 insn) with
  | none => exact stops_illegal hpc insn
  | some size =>
    refine stops_bind (stops_orTrap hpc (cpuStore_frame _ _ _) fun exc e he => ?_) fun _ _ _ =>
      stops_never fun _ h => nomatch h
    exact ⟨_, c, .store hop hkind, he, rfl⟩

theorem execSc_stops {A : MemOp → Cpu → Prop} {addr : U64} {size : Nat} (hpc : c.pc = pc)
    (hstore : (c.reservation.valid && c.reservation.addr == addr) = true → A (.store addr size (c.x (rs2 insn))) c) :
    StopsWith A pc (execSc insn addr size) c := by
  unfold execSc
  refine stops_get_bind ?_
  by_cases hres : (c.reservation.valid && c.reservation.addr == addr) = true
  · rw [if_pos hres]
    refine stops_bind (stops_orTrap hpc (cpuStore_frame _ _ _) fun exc e he => ?_) fun _ _ _ =>
      stops_never fun _ h => nomatch h
    exact ⟨_, c, hstore hres, he, rfl⟩
  · rw [if_neg hres]
    exact stops_never fun _ h => nomatch h

theorem execAmo_stops (hpc : c.pc = pc) (hop : opcode insn = 0x2F) :
    StopsWith (InsnAccess insn c) pc (execAmo insn nextPc) c := by
  have hframe := rv64CpuLoad_frame (c.x (rs1 insn)) (amoBytes insn) .read c
  unfold execAmo
  refine stops_get_bind ?_
  dsimp only
  refine stops_bind (stops_orTrap hpc (rv64CpuLoad_frame _ _ _) fun exc e he => ⟨_, c, .amoLoad hop, he, rfl⟩)
    fun old m hload => ?_
  rw [orTrap_eq_ok] at hload
  change rv64CpuLoad (c.x (rs1 insn)) (amoBytes insn) .read c = .ok old m at hload
  rw [hload] at hframe
  have hm : m.pc = pc := by
    obtain ⟨t, b, d, rfl⟩ := hframe
    exact hpc
  have hx : m.x = c.x := by
    obtain ⟨t, b, d, rfl⟩ := hframe
    rfl
  have haccess {val : U64} (hval : amoStored insn m old = some val) :
      InsnAccess insn c (.store (c.x (rs1 insn)) (amoBytes insn) val) m := .amoStore hop hload hval
  split
  · exact stops_never fun _ h => nomatch h
  next hlr =>
    split
    next hsc =>
      refine stops_bind (execSc_stops hm fun hres => haccess (amoStored_sc hsc ?_)) fun _ _ _ =>
        stops_never fun _ h => nomatch h
      rw [hx]
      exact hres
    next hsc =>
      refine stops_get_bind ?_
      split
      · exact stops_bind (stops_illegal hm insn) fun _ _ _ => stops_never fun _ h => nomatch h
      next result hresult =>
        refine stops_bind (stops_orTrap hm (cpuStore_frame _ _ _) fun exc e he => ?_) fun _ _ _ =>
          stops_never fun _ h => nomatch h
        exact ⟨_, m, haccess (amoStored_amo hlr hsc hresult), he, rfl⟩

theorem execSystem_stops {A : MemOp → Cpu → Prop} (hpc : c.pc = pc) : StopsWith A pc (execSystem insn nextPc) c := by
  unfold execSystem
  refine stops_get_bind ?_
  split
  · split
    · exact stops_trapM hpc (by decide) 0
    split
    · exact stops_trapM hpc (by decide) 0
    split
    · exact stops_trapM hpc (by decide) 0
    · exact stops_never fun _ h => nomatch h
  split
  · exact stops_trapM hpc (by decide) _
  split
  · split
    · exact stops_illegal hpc insn
    · exact stops_never fun _ h => nomatch h
  split
  · split
    · exact stops_illegal hpc insn
    · exact stops_never fun _ h => nomatch h
  split
  · exact stops_never fun _ h => nomatch h
  split
  · exact stops_never fun _ h => nomatch h
  · exact stops_illegal hpc insn

theorem execCsr_stops {A : MemOp → Cpu → Prop} (hpc : c.pc = pc) : StopsWith A pc (execCsr insn nextPc) c := by
  unfold execCsr
  refine stops_get_bind ?_
  dsimp only
  split
  · exact stops_illegal hpc insn
  · exact stops_ite (stops_never fun _ h => nomatch h) (stops_never fun _ h => nomatch h)

theorem wr32_stops {A : MemOp → Cpu → Prop} (hpc : c.pc = pc) (r : Option U32) :
    StopsWith A pc (do wr32 insn r; return nextPc : Exec U64) c := by
  refine stops_bind ?_ fun _ _ _ => stops_never fun _ h => nomatch h
  cases r with
  | none => exact stops_illegal hpc insn
  | some v => exact stops_never fun _ h => nomatch h

omit [NetDevice] in
theorem fpAccess_cases {α : Type} {m : Access α} {addr : U64} {k : α → Cpu → Cpu} {c c' : Cpu} {r : FpResult}
    (h : fpAccess m addr k c = (r, c')) : r = .ok ∨ r = .faulted ∧ ∃ exc e, m c = .error exc e ∧ c' = trap e exc addr := by
  unfold fpAccess at h
  cases hm : m c with
  | ok v d =>
    rw [hm] at h
    cases h
    exact .inl rfl
  | error exc e =>
    rw [hm] at h
    cases h
    exact .inr ⟨rfl, exc, e, rfl, rfl⟩

/-- The access of a floating-point instruction succeeds or faults. -/
theorem InsnAccess.fpAccess {α : Type} {op : MemOp} {m : Access α} {k : α → Cpu → Cpu} {c' : Cpu} {r : FpResult}
    (hop : InsnAccess insn c op (markFsDirty c)) (hm : ∀ exc e, m (markFsDirty c) = .error exc e → op.Faults (markFsDirty c) exc e)
    (h : PgLinux.fpAccess m op.va k (markFsDirty c) = (r, c')) : r = .ok ∨ r = .illegal ∧ c' = markFsDirty c ∨
      r = .faulted ∧
        ∃ op exc e, InsnAccess insn c op (markFsDirty c) ∧ op.Faults (markFsDirty c) exc e ∧ c' = trap e exc op.va := by
  rcases fpAccess_cases h with hr | ⟨hr, exc, e, he, hc'⟩
  · exact .inl hr
  · exact .inr (.inr ⟨hr, op, exc, e, hop, hm exc e he, hc'⟩)

variable [HostFp]

/-- A floating-point instruction succeeds, is illegal, or faults in its access. -/
theorem rv64FpExec_cases {c' : Cpu} {r : FpResult} (h : rv64FpExec insn c = (r, c')) :
    r = .ok ∨ r = .illegal ∧ c' = markFsDirty c ∨ r = .faulted ∧
      ∃ op exc e, InsnAccess insn c op (markFsDirty c) ∧ op.Faults (markFsDirty c) exc e ∧ c' = trap e exc op.va := by
  unfold rv64FpExec at h
  dsimp only at h
  split at h
  next hop =>
    have hop' : opcode insn = 0x07 := BitVec.eq_of_toNat_eq hop
    split at h
    next h2 => exact (InsnAccess.fpLoad hop' (.inl ⟨h2, rfl⟩)).fpAccess (fun _ _ => id) h
    split at h
    next h3 => exact (InsnAccess.fpLoad hop' (.inr ⟨h3, rfl⟩)).fpAccess (fun _ _ => id) h
    · cases h
      exact .inr (.inl ⟨rfl, rfl⟩)
  next hop =>
    have hop' : opcode insn = 0x27 := BitVec.eq_of_toNat_eq hop
    split at h
    next h2 => exact (InsnAccess.fpStore hop' (.inl ⟨h2, rfl, rfl⟩)).fpAccess (fun _ _ => id) h
    split at h
    next h3 => exact (InsnAccess.fpStore hop' (.inr ⟨h3, rfl, rfl⟩)).fpAccess (fun _ _ => id) h
    · cases h
      exact .inr (.inl ⟨rfl, rfl⟩)
  · cases hcompute : fpCompute (markFsDirty c) insn with
    | some d =>
      rw [hcompute] at h
      cases h
      exact .inl rfl
    | none =>
      rw [hcompute] at h
      cases h
      exact .inr (.inl ⟨rfl, rfl⟩)

theorem execFp_stops (hpc : c.pc = pc) : StopsWith (InsnAccess insn c) pc (execFp insn nextPc) c := by
  intro c' h
  unfold execFp at h
  cases hr : rv64FpExec insn c with
  | mk r d =>
    rw [hr] at h
    rcases rv64FpExec_cases hr with rfl | ⟨rfl, rfl⟩ | ⟨rfl, op, exc, e, hop, hfault, rfl⟩
    · cases h
    · exact stops_illegal (c := markFsDirty c) (α := U64) hpc insn c' h
    · cases h
      have he : e.pc = pc := by
        obtain ⟨t, b, g, rfl⟩ := hfault.frame
        exact hpc
      exact ⟨e, exc, op.va, rfl, he, .inr ⟨op, _, e, hop, hfault, rfl⟩⟩

/-- **An instruction traps with a page fault of its own access only.** -/
theorem execInsn_stops (hpc : c.pc = pc) (pc' : U64) :
    StopsWith (InsnAccess insn c) pc (execInsn insn pc' nextPc) c := by
  unfold execInsn
  refine stops_get_bind ?_
  split
  · exact stops_never fun _ h => nomatch h
  · exact stops_never fun _ h => nomatch h
  · exact stops_never fun _ h => nomatch h
  · exact stops_never fun _ h => nomatch h
  · split
    · exact stops_illegal hpc insn
    · exact stops_never fun _ h => nomatch h
  next hop => exact execLoad_stops hpc (BitVec.eq_of_toNat_eq hop)
  next hop => exact execStore_stops hpc (BitVec.eq_of_toNat_eq hop)
  · exact stops_never fun _ h => nomatch h
  · exact stops_never fun _ h => nomatch h
  · exact wr32_stops hpc _
  · exact wr32_stops hpc _
  next hop => exact execAmo_stops hpc (BitVec.eq_of_toNat_eq hop)
  · split
    · exact stops_never fun _ h => nomatch h
    · exact stops_never fun _ h => nomatch h
  · split
    · exact execSystem_stops hpc
    · exact execCsr_stops hpc
  all_goals first
    | exact execFp_stops hpc
    | exact stops_illegal hpc insn

end Insn

variable {c c' : Cpu}

theorem StepAccess.size {op : MemOp} {m : Cpu} (h : StepAccess c op m) : 0 < op.size ∧ op.size ≤ 8 := by
  cases h with
  | fetch => simp [MemOp.size]
  | refetch => simp [MemOp.size]
  | insn _ h => exact h.size

theorem fetch_stops (h : fetchInsn c.pc (checkBreak c) = .error () c') : TrapOf (StepAccess c) c.pc c' := by
  have hbreak := checkBreak_pc c
  have hframe := rv64CpuLoad_frame c.pc 4 .exec (checkBreak c)
  unfold fetchInsn at h
  cases h4 : rv64CpuLoad c.pc 4 .exec (checkBreak c) with
  | ok v d =>
    rw [h4] at h
    cases h
  | error exc d =>
    rw [h4] at h hframe
    have hframe2 := rv64CpuLoad_frame c.pc 2 .exec d
    dsimp only at h
    cases h2 : rv64CpuLoad c.pc 2 .exec d with
    | error exc2 e =>
      rw [h2] at h hframe2
      cases h
      obtain ⟨t, b, g, rfl⟩ := trans_of AccessFrame hframe hframe2
      exact ⟨_, exc2, c.pc, rfl, hbreak, .inr ⟨_, d, _, .refetch h4, h2, rfl⟩⟩
    | ok v e =>
      rw [h2] at h hframe2
      dsimp only at h
      split at h
      · cases h
        obtain ⟨t, b, g, rfl⟩ := trans_of AccessFrame hframe hframe2
        exact ⟨_, exc, c.pc, rfl, hbreak, .inr ⟨_, _, d, .fetch, h4, rfl⟩⟩
      · cases h

variable [HostFp]

theorem stepBody_stops (hrun : c.halted = false) (h : stepBody c = .error () c') : TrapOf (StepAccess c) c.pc c' := by
  rw [stepBody_eq] at h
  cases hfetch : fetchInsn c.pc (checkBreak c) with
  | error u d =>
    rw [hfetch] at h
    cases h
    exact fetch_stops hfetch
  | ok word d =>
    rw [hfetch] at h
    have hpc : (logInsn word d).pc = c.pc := by
      obtain ⟨t, b, g, rfl⟩ := fetchInsn_frame hfetch
      rfl
    change afterFetch c.pc word (logInsn word d) = .error () c' at h
    unfold afterFetch at h
    rcases expandInsn_cases word with ⟨insn, he⟩ | he
    · rw [he] at h
      have hinsn : StopsWith (InsnAccess insn (logInsn word d)) c.pc
          (do modify (retire (← execInsn insn c.pc (c.pc + insnBytes (isCompressed word))))) (logInsn word d) :=
        stops_bind (execInsn_stops hpc c.pc) fun _ _ _ => stops_never fun _ h => nomatch h
      obtain ⟨e, cause, tval, rfl, hepc, hfault⟩ := hinsn c' h
      refine ⟨e, cause, tval, rfl, hepc, hfault.imp_right ?_⟩
      rintro ⟨op, m, e', hop, hrest⟩
      exact ⟨op, m, e', .insn ⟨hrun, hfetch, he⟩ hop, hrest⟩
    · rw [he] at h
      have htrap : StopsWith (StepAccess c) c.pc (do
          let insn ← trapM excIllegalInsn ((word.setWidth 16).setWidth 64)
          modify (retire (← execInsn insn c.pc (c.pc + insnBytes (isCompressed word))))) (logInsn word d) :=
        stops_bind (stops_trapM hpc (by decide) _) fun _ _ h => nomatch h
      exact htrap c' h

/-- **A page fault** is reported with its address exactly when the access failed in its first page. -/
theorem pageFault_reported_iff (hrun : c.halted = false) (h : stepBody c = .error () c') (hpf : IsPageFault c'.trapInfo.cause) :
    ∃ op m e, StepAccess c op m ∧ op.Faults m c'.trapInfo.cause e ∧
      (FaultReported op m c.pc c'.trapInfo ↔ ¬ op.SecondPage m) := by
  obtain ⟨d, cause, tval, rfl, hpc, hfault⟩ := stepBody_stops hrun h
  rw [trapInfo_trap] at hpf ⊢
  obtain ⟨op, m, e, hop, hstop, rfl⟩ := hfault.resolve_left (not_not.2 hpf)
  obtain ⟨hpos, hsize⟩ := hop.size
  refine ⟨op, m, e, hop, hstop, ?_⟩
  rw [hpc]
  exact hstop.reported_iff hpos (by omega) cause c.pc

end Step

section Crossing

local instance crossingNet : NetDevice := NetDevice.silent
local instance crossingFp : HostFp := HostFp.zero

/-- Supervisor mode, about to execute LD x3, 0(x1) at the start of the one gigabyte page that is mapped. -/
def loadAt (va : U64) : Cpu :=
  let c := rv64Init (Mem.write (Mem.write (fun _ => 0) 0x1008 8 0x2000000F) 0 4 0x0000B183) 0x80000000
  { c with priv := privS, pc := 0x40000000, csr := { c.csr with satp := 0x8000000000080001 }, x := setAt c.x 1 va }

/-- The machine once the load was fetched. -/
def loadFetched (va : U64) : Cpu := final (fetchInsn (loadAt va).pc (checkBreak (loadAt va)))

theorem loadAt_fetches {va : U64} (h : answer (fetchInsn (loadAt va).pc (checkBreak (loadAt va))) = some 0x0000B183) :
    Fetches (loadAt va) 0x0000B183 0x0000B183 (loadFetched va) := ⟨rfl, eq_ok_of_answer h, rfl⟩

/-- The machine and the access of the load. -/
def loadStart (va : U64) : Cpu := logInsn 0x0000B183 (loadFetched va)
def loadOp (va : U64) : MemOp := .load ((loadStart va).x (rs1 0x0000B183) + immI 0x0000B183) 8 .read

/-- The last four bytes of the page translate, the next four do not: the trap value is the first byte. -/
theorem not_faultReported_crossing : ∃ c c' op m e, c.halted = false ∧ stepBody c = .error () c' ∧
    IsPageFault c'.trapInfo.cause ∧ StepAccess c op m ∧ op.Faults m c'.trapInfo.cause e ∧
    ¬ FaultReported op m c.pc c'.trapInfo := by
  have hstop : stepBody (loadAt 0x7FFFFFFC) = .error () (final (stepBody (loadAt 0x7FFFFFFC))) :=
    eq_error_of_failure (by decide +kernel)
  have hinfo : (final (stepBody (loadAt 0x7FFFFFFC))).trapInfo = ⟨excLoadPageFault, 0x7FFFFFFC, 0x40000000⟩ := by
    decide +kernel
  have hfail : (loadOp 0x7FFFFFFC).failing (loadStart 0x7FFFFFFC) = some 0x80000000 := by decide +kernel
  have hfault : (loadOp 0x7FFFFFFC).Faults (loadStart 0x7FFFFFFC) excLoadPageFault
      (final (rv64CpuLoad _ 8 .read (loadStart 0x7FFFFFFC))) := eq_error_of_failure (by decide +kernel)
  refine ⟨_, _, _, _, _, rfl, hstop, by rw [hinfo]; decide, .insn (loadAt_fetches (by decide +kernel)) (.load rfl rfl),
    by rw [hinfo]; exact hfault, ?_⟩
  rw [hinfo]
  rintro ⟨⟨a, ha, -, hpage⟩, -⟩
  cases hfail.symm.trans ha
  revert hpage
  decide

/-- A load inside a page that is not mapped. -/
theorem pageFault_reported_load : ∃ op m e, StepAccess (loadAt 0x80000008) op m ∧
    op.Faults m (final (stepBody (loadAt 0x80000008))).trapInfo.cause e ∧
    (FaultReported op m 0x40000000 (final (stepBody (loadAt 0x80000008))).trapInfo ↔ ¬ op.SecondPage m) :=
  pageFault_reported_iff rfl (eq_error_of_failure (by decide +kernel)) (by decide +kernel)

end Crossing

end PgLinux
