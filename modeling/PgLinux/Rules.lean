import PgLinux.Frames
import PgLinux.Run
/-!
# Rules — where a step, or a block, leads

An instruction is made of register writes, loads, stores, traps, CSR writes and flushes.  A preorder that allows these
allows every step that does not return from a trap; MRET and SRET end a step of their own.
-/
namespace PgLinux

open Prog

/-! ## Frames -/

/-- Nothing that translation, memory or the block cache depends on. -/
structure CoreFrame (c c' : Cpu) : Prop where
  tlb : c'.tlb = c.tlb
  bus : c'.bus = c.bus
  priv : c'.priv = c.priv
  satp : c'.csr.satp = c.csr.satp
  sum : c'.sum = c.sum
  mxr : c'.mxr = c.mxr
  jit : c'.jit = c.jit
  ram_size : c'.ram_size = c.ram_size

instance : IsPreorder Cpu CoreFrame where
  refl _ := ⟨rfl, rfl, rfl, rfl, rfl, rfl, rfl, rfl⟩
  trans _ _ _ h h' := ⟨h'.tlb.trans h.tlb, h'.bus.trans h.bus, h'.priv.trans h.priv, h'.satp.trans h.satp,
    h'.sum.trans h.sum, h'.mxr.trans h.mxr, h'.jit.trans h.jit, h'.ram_size.trans h.ram_size⟩

theorem markFsDirty_core (c : Cpu) : CoreFrame c (markFsDirty c) := by
  refine ⟨rfl, rfl, rfl, rfl, ?_, ?_, rfl, rfl⟩
  · show (c.csr.mstatus ||| mstatusFs).getLsbD 18 = c.csr.mstatus.getLsbD 18
    simp [mstatusFs]
  · show (c.csr.mstatus ||| mstatusFs).getLsbD 19 = c.csr.mstatus.getLsbD 19
    simp [mstatusFs]

theorem checkBreak_core (c : Cpu) : CoreFrame c (checkBreak c) := by
  unfold checkBreak
  split <;> exact ⟨rfl, rfl, rfl, rfl, rfl, rfl, rfl, rfl⟩

/-- Registers only. -/
def RegFrame (c c' : Cpu) : Prop := ∃ x f, c' = { c with x := x, f := f }

theorem RegFrame.core {c c' : Cpu} (h : RegFrame c c') : CoreFrame c c' := by
  obtain ⟨x, f, rfl⟩ := h
  exact ⟨rfl, rfl, rfl, rfl, rfl, rfl, rfl, rfl⟩

theorem wrD_regs (rd : BitVec 5) (v : U64) (c : Cpu) : RegFrame c (wrD rd v c) := ⟨c.x, _, rfl⟩

theorem wrF_regs (rd : BitVec 5) (v : U32) (c : Cpu) : RegFrame c (wrF rd v c) := wrD_regs rd _ c

theorem setX_regs (rd : BitVec 5) (v : U64) (c : Cpu) : RegFrame c (setX rd v c) := ⟨_, c.f, rfl⟩

/-- If there is a result, only registers differ. -/
def ResultRegs (c : Cpu) (o : Option Cpu) : Prop := ∀ c', o = some c' → RegFrame c c'

theorem resultRegs_some {c c' : Cpu} (h : RegFrame c c') : ResultRegs c (some c') := by
  intro d hd
  cases hd
  exact h

theorem resultRegs_none (c : Cpu) : ResultRegs c none := fun _ h => by cases h

theorem resultRegs_map {α : Type} {c : Cpu} (o : Option α) {k : α → Cpu} (hk : ∀ a, RegFrame c (k a)) :
    ResultRegs c (o.map k) := by
  cases o with
  | none => exact resultRegs_none c
  | some a => exact resultRegs_some (hk a)

theorem resultRegs_or {c : Cpu} {o o' : Option Cpu} (h : ResultRegs c o) (h' : ResultRegs c o') :
    ResultRegs c (o.or o') := by
  cases o with
  | none => exact h'
  | some d => exact h

section Fp

variable [HostFp]

theorem fpArithS_regs (c : Cpu) (insn : U32) : ResultRegs c (fpArithS c insn) := by
  unfold fpArithS
  dsimp only
  split <;> first
    | exact resultRegs_some (wrF_regs _ _ c)
    | exact resultRegs_some (setX_regs _ _ c)
    | exact resultRegs_map _ fun _ => wrF_regs _ _ c
    | exact resultRegs_map _ fun _ => setX_regs _ _ c
    | exact resultRegs_none c

theorem fpArithD_regs (c : Cpu) (insn : U32) : ResultRegs c (fpArithD c insn) := by
  unfold fpArithD
  dsimp only
  split <;> first
    | exact resultRegs_some (wrD_regs _ _ c)
    | exact resultRegs_some (setX_regs _ _ c)
    | exact resultRegs_map _ fun _ => wrD_regs _ _ c
    | exact resultRegs_map _ fun _ => setX_regs _ _ c
    | exact resultRegs_none c

theorem fpCompute_regs (c : Cpu) (insn : U32) : ResultRegs c (fpCompute c insn) := by
  unfold fpCompute fpFmaExec
  dsimp only
  split
  · exact resultRegs_or (fpArithS_regs c insn) (fpArithD_regs c insn)
  · split
    · exact resultRegs_some (wrF_regs _ _ c)
    · split
      · exact resultRegs_some (wrD_regs _ _ c)
      · exact resultRegs_none c

end Fp

/-! ## Returns -/

/-- MRET and SRET. -/
def IsReturn (insn : U32) : Prop := insn = 0x30200073 ∨ insn = 0x10200073

/-- The state of a return, registers aside. -/
def Returned (c c' : Cpu) : Prop := CoreFrame (mret c) c' ∨ CoreFrame (sret c) c'

/-- What the rules allow, and one return at the end. -/
def ThenReturns (R : Cpu → Cpu → Prop) (c c' : Cpu) : Prop := R c c' ∨ ∃ m, R c m ∧ Returned m c'

theorem ThenReturns.head {R : Cpu → Cpu → Prop} [IsPreorder Cpu R] {c c' c'' : Cpu} (hc : R c c')
    (h : ThenReturns R c' c'') : ThenReturns R c c'' := by
  rcases h with h | ⟨m, hm, hret⟩
  · exact .inl (trans_of R hc h)
  · exact .inr ⟨m, trans_of R hc hm, hret⟩

/-! ## Rules -/

section Rules

variable [NetDevice]

/-- What an instruction that stores nothing is made of, CSR accesses, returns and the FPU aside.  A trap leads elsewhere. -/
structure LoadEnds (R T : Cpu → Cpu → Prop) : Prop where
  wr : ∀ c rd v, R c (c.wr rd v)
  load : ∀ va size access, Leads R (rv64CpuLoad va size access)
  trap : ∀ c cause tval, T c (trap c cause tval)
  jitFlush : ∀ c, R c (jitFlush c)
  after : ∀ {c d e}, R c d → T d e → T c e

/-- The same of every instruction. -/
structure ExecEnds (R T : Cpu → Cpu → Prop) : Prop extends LoadEnds R T where
  reserve : ∀ c r, R c { c with reservation := r }
  store : ∀ va size val, Leads R (cpuStore va size val)

/-- Where the result of a floating-point instruction leads. -/
def FpEnds (R T : Cpu → Cpu → Prop) (c : Cpu) (p : FpResult × Cpu) : Prop := if p.1 = .faulted then T c p.2 else R c p.2

/-- What an instruction that stores nothing is made of, if its traps lead where it leads. -/
structure LoadRules (R : Cpu → Cpu → Prop) : Prop where
  wr : ∀ c rd v, R c (c.wr rd v)
  load : ∀ va size access, Leads R (rv64CpuLoad va size access)
  trap : ∀ c cause tval, R c (trap c cause tval)
  jitFlush : ∀ c, R c (jitFlush c)

/-- What an instruction is made of, CSR accesses, returns and the FPU aside. -/
structure ExecRules (R : Cpu → Cpu → Prop) : Prop where
  wr : ∀ c rd v, R c (c.wr rd v)
  reserve : ∀ c r, R c { c with reservation := r }
  load : ∀ va size access, Leads R (rv64CpuLoad va size access)
  store : ∀ va size val, Leads R (cpuStore va size val)
  trap : ∀ c cause tval, R c (trap c cause tval)
  jitFlush : ∀ c, R c (jitFlush c)

/-- What a preorder has to allow. -/
structure StepRules (R : Cpu → Cpu → Prop) : Prop where
  core : ∀ {c c'}, CoreFrame c c' → R c c'
  load : ∀ va size access, Leads R (rv64CpuLoad va size access)
  store : ∀ va size val, Leads R (cpuStore va size val)
  trap : ∀ c cause tval, R c (trap c cause tval)
  csrWrite : ∀ c csr val, R c (csrWrite c csr val)
  tlbFlush : ∀ c, R c (rv64TlbFlush c)
  jitFlush : ∀ c, R c (jitFlush c)

variable {R : Cpu → Cpu → Prop}

theorem StepRules.toExec (h : StepRules R) : ExecRules R where
  wr _ _ _ := h.core ⟨rfl, rfl, rfl, rfl, rfl, rfl, rfl, rfl⟩
  reserve _ _ := h.core ⟨rfl, rfl, rfl, rfl, rfl, rfl, rfl, rfl⟩
  load := h.load
  store := h.store
  trap := h.trap
  jitFlush := h.jitFlush

theorem ExecRules.toLoad (h : ExecRules R) : LoadRules R where
  wr := h.wr
  load := h.load
  trap := h.trap
  jitFlush := h.jitFlush

theorem ExecRules.mono (h : ExecRules R) {Q : Cpu → Cpu → Prop} (hq : ∀ c c', R c c' → Q c c') : ExecRules Q where
  wr c rd v := hq _ _ (h.wr c rd v)
  reserve c r := hq _ _ (h.reserve c r)
  load va size access := (h.load va size access).mono hq
  store va size val := (h.store va size val).mono hq
  trap c cause tval := hq _ _ (h.trap c cause tval)
  jitFlush c := hq _ _ (h.jitFlush c)

section Ends

variable {T : Cpu → Cpu → Prop}

theorem LoadEnds.wrM (h : LoadEnds R T) (rd : BitVec 5) (v : U64) : Ends R T (wrM rd v) :=
  ends_modify fun c => h.wr c rd v

theorem LoadEnds.trapM (h : LoadEnds R T) {α : Type} (cause tval : U64) : Ends R T (trapM cause tval : Exec α) :=
  fun c => h.trap c cause tval

theorem LoadEnds.illegal (h : LoadEnds R T) {α : Type} (insn : U32) : Ends R T (illegal insn : Exec α) :=
  h.trapM excIllegalInsn _

theorem LoadEnds.orTrap (h : LoadEnds R T) {α : Type} {m : Access α} (hm : Leads R m) (tval : U64) :
    Ends R T (orTrap m tval) := by
  intro c
  have hc := hm c
  unfold PgLinux.orTrap
  cases hr : m c with
  | ok v c' =>
    rw [hr] at hc
    exact hc
  | error exc c' =>
    rw [hr] at hc
    exact h.after hc (h.trap c' exc tval)

theorem LoadEnds.wr32 (h : LoadEnds R T) (insn : U32) (r : Option U32) : Ends R T (wr32 insn r) := by
  cases r with
  | none => exact h.illegal insn
  | some v => exact h.wrM _ _

variable [IsPreorder Cpu R]

theorem LoadEnds.bind (h : LoadEnds R T) {α β : Type} {m : Exec α} {f : α → Exec β} (hm : Ends R T m)
    (hf : ∀ a, Ends R T (f a)) : Ends R T (m >>= f) := ends_bind hm hf h.after

theorem LoadEnds.execLoad (h : LoadEnds R T) (insn : U32) (nextPc : U64) : Ends R T (execLoad insn nextPc) := by
  unfold PgLinux.execLoad
  refine ends_get_bind fun c => ?_
  dsimp only
  split
  · exact h.illegal insn
  · exact h.bind (h.orTrap (h.load _ _ _) _) fun _ => h.bind (h.wrM _ _) fun _ => ends_pure _

theorem ExecEnds.execStore (h : ExecEnds R T) (insn : U32) (nextPc : U64) : Ends R T (execStore insn nextPc) := by
  unfold PgLinux.execStore
  refine ends_get_bind fun c => ?_
  dsimp only
  split
  · exact h.illegal insn
  · exact h.bind (h.orTrap (h.store _ _ _) _) fun _ => ends_pure _

theorem ExecEnds.execSc (h : ExecEnds R T) (insn : U32) (addr : U64) (size : Nat) : Ends R T (execSc insn addr size) := by
  have hclear : Ends R T
      (modify fun c : Cpu => { c with reservation := { c.reservation with valid := false } } : Exec Unit) :=
    ends_modify fun c => h.reserve c _
  unfold PgLinux.execSc
  refine ends_get_bind fun c => ?_
  dsimp only
  split
  · exact h.bind (h.orTrap (h.store _ _ _) _) fun _ => h.bind (h.wrM _ _) fun _ => hclear
  · exact h.bind (h.wrM _ _) fun _ => hclear

theorem ExecEnds.execAmo (h : ExecEnds R T) (insn : U32) (nextPc : U64) : Ends R T (execAmo insn nextPc) := by
  unfold PgLinux.execAmo
  refine ends_get_bind fun c => ?_
  dsimp only
  refine h.bind (h.orTrap (h.load _ _ _) _) fun val => ?_
  split
  · exact h.bind (ends_modify fun c => h.reserve c _) fun _ => h.bind (h.wrM _ _) fun _ => ends_pure _
  · split
    · exact h.bind (h.execSc _ _ _) fun _ => ends_pure _
    · refine ends_get_bind fun c => ?_
      split
      · exact h.bind (h.illegal insn) fun _ => ends_pure _
      · exact h.bind (h.orTrap (h.store _ _ _) _) fun _ => h.bind (h.wrM _ _) fun _ => ends_pure _

theorem LoadEnds.fpAccess (h : LoadEnds R T) {α : Type} {m : Access α} (hm : Leads R m) (addr : U64)
    {k : α → Cpu → Cpu} (hk : ∀ v c, R c (k v c)) (c : Cpu) : FpEnds R T c (fpAccess m addr k c) := by
  have hc := hm c
  unfold PgLinux.fpAccess
  cases hr : m c with
  | ok v c' =>
    rw [hr] at hc
    exact trans_of R hc (hk v c')
  | error exc c' =>
    rw [hr] at hc
    exact h.after hc (h.trap c' exc addr)

theorem LoadEnds.fetchInsn (h : LoadEnds R T) (pc : U64) : Ends R T (fetchInsn pc) := by
  intro c
  have h4 := h.load pc 4 .exec c
  unfold PgLinux.fetchInsn
  cases hr : rv64CpuLoad pc 4 .exec c with
  | ok v c' =>
    rw [hr] at h4
    exact h4
  | error exc c' =>
    rw [hr] at h4
    have h2 := h.load pc 2 .exec c'
    dsimp only
    cases hr2 : rv64CpuLoad pc 2 .exec c' with
    | error exc2 c'' =>
      rw [hr2] at h2
      exact h.after (trans_of R h4 h2) (h.trap c'' exc2 pc)
    | ok v c'' =>
      rw [hr2] at h2
      dsimp only
      split
      · exact h.after (trans_of R h4 h2) (h.trap c'' exc pc)
      · exact trans_of R h4 h2

theorem LoadEnds.expandInsn (h : LoadEnds R T) (word : U32) : Ends R T (expandInsn word) := by
  unfold PgLinux.expandInsn
  split
  · split
    · exact ends_pure _
    · exact h.trapM _ _
  · exact ends_pure _

theorem LoadEnds.execCsr (h : LoadEnds R T) (hcsr : ∀ csr val c, R c (csrWriteChecked csr val c)) (insn : U32)
    (nextPc : U64) : Ends R T (execCsr insn nextPc) := by
  unfold PgLinux.execCsr
  refine ends_get_bind fun c => ?_
  dsimp only
  split
  · exact h.illegal insn
  · refine ends_ite ?_ (h.bind (h.wrM _ _) fun _ => ends_pure _)
    exact h.bind (ends_modify (hcsr _ _)) fun _ => h.bind (h.wrM _ _) fun _ => ends_pure _

theorem LoadEnds.execSystem (h : LoadEnds R T) {insn : U32} (hret : IsReturn insn → ∀ c, R c (mret c) ∧ R c (sret c))
    (hhalt : ∀ c, R c { c with halted := true }) (hflush : ∀ c, R c (rv64TlbFlush c)) (nextPc : U64) :
    Ends R T (execSystem insn nextPc) := by
  have hecall : ∀ c : Cpu, Ends R T (if c.priv = privU then PgLinux.trapM excEcallU 0
      else if c.priv = privS then PgLinux.trapM excEcallS 0
      else if c.priv = privM then PgLinux.trapM excEcallM 0
      else return nextPc : Exec U64) := fun c =>
    ends_ite (h.trapM _ _) (ends_ite (h.trapM _ _) (ends_ite (h.trapM _ _) (ends_pure _)))
  intro c
  show Ended R T c ((if insn = 0x00000073 then _ else if insn = 0x00100073 then _ else if insn = 0x30200073 then _
    else if insn = 0x10200073 then _ else if insn = 0x10500073 then _ else if funct7 insn = 0x09 then _
    else PgLinux.illegal insn : Exec U64) c)
  split
  · exact hecall c c
  split
  · exact h.trapM _ _ c
  split
  next hm =>
    split
    · exact h.illegal insn c
    · exact (hret (.inl hm) c).1
  split
  next hs =>
    split
    · exact h.illegal insn c
    · exact (hret (.inr hs) c).2
  split
  · exact hhalt c
  split
  · exact hflush c
  · exact h.illegal insn c

end Ends

variable [IsPreorder Cpu R]

section Insn

variable [HostFp] {T : Cpu → Cpu → Prop}

/-- **A floating-point instruction leads where its access, its result and its trap lead.** -/
theorem LoadEnds.rv64FpExec (h : LoadEnds R T) {insn : U32} {c : Cpu}
    (hstore : (opcode insn).toNat = 0x27 → ∀ va size val, Leads R (cpuStore va size val))
    (hdirty : ∀ c, R c (markFsDirty c)) (hf : ∀ c f, R c { c with f := f })
    (hcompute : ∀ d, fpCompute (markFsDirty c) insn = some d → R (markFsDirty c) d) :
    FpEnds R T c (rv64FpExec insn c) := by
  have hbind : ∀ {r : FpResult × Cpu}, FpEnds R T (markFsDirty c) r → FpEnds R T c r := by
    rintro ⟨r, d⟩ hr
    cases r with
    | faulted => exact h.after (hdirty c) hr
    | ok => exact trans_of R (hdirty c) hr
    | illegal => exact trans_of R (hdirty c) hr
  unfold PgLinux.rv64FpExec
  dsimp only
  split
  · split
    · exact hbind (h.fpAccess (h.load _ _ _) _ (fun _ c => hf c _) _)
    · split
      · exact hbind (h.fpAccess (h.load _ _ _) _ (fun _ c => hf c _) _)
      · exact hdirty c
  next hop =>
    split
    · exact hbind (h.fpAccess (hstore hop _ _ _) _ (fun _ => refl_of R) _)
    · split
      · exact hbind (h.fpAccess (hstore hop _ _ _) _ (fun _ => refl_of R) _)
      · exact hdirty c
  · cases hr : fpCompute (markFsDirty c) insn with
    | none => exact hdirty c
    | some d => exact hbind (r := (.ok, d)) (hcompute d hr)

omit [IsPreorder Cpu R] in
theorem LoadEnds.execFp (h : LoadEnds R T) {insn : U32} (hfp : ∀ c, FpEnds R T c (PgLinux.rv64FpExec insn c))
    (nextPc : U64) : Ends R T (execFp insn nextPc) := by
  intro c
  have hc := hfp c
  unfold PgLinux.execFp
  cases hr : PgLinux.rv64FpExec insn c with
  | mk r c' =>
    rw [hr] at hc
    cases r with
    | ok => exact hc
    | illegal => exact h.after hc (h.illegal (α := U64) insn c')
    | faulted => exact hc

/-- The opcodes of the F and D extensions. -/
def IsFp (insn : U32) : Prop := (opcode insn).toNat ∈ [0x07, 0x27, 0x43, 0x47, 0x4B, 0x4F, 0x53]

instance (insn : U32) : Decidable (IsFp insn) := inferInstanceAs (Decidable (_ ∈ _))

/-- **An instruction leads where its parts lead.** -/
theorem LoadEnds.execInsn (h : LoadEnds R T) {insn : U32} {nextPc : U64}
    (hstore : opcode insn = 0x23 → Ends R T (PgLinux.execStore insn nextPc))
    (hamo : opcode insn = 0x2F → Ends R T (PgLinux.execAmo insn nextPc))
    (hfp : IsFp insn → ∀ c, FpEnds R T c (PgLinux.rv64FpExec insn c)) (hsys : opcode insn = 0x73 →
      Ends R T (if funct3 insn = 0 then PgLinux.execSystem insn nextPc else PgLinux.execCsr insn nextPc)) (pc : U64) :
    Ends R T (execInsn insn pc nextPc) := by
  unfold PgLinux.execInsn
  refine ends_get_bind fun c => ?_
  split
  · exact h.bind (h.wrM _ _) fun _ => ends_pure _
  · exact h.bind (h.wrM _ _) fun _ => ends_pure _
  · exact h.bind (h.wrM _ _) fun _ => ends_pure _
  · exact h.bind (h.wrM _ _) fun _ => ends_pure _
  · split
    · exact h.illegal insn
    · exact ends_pure _
  · exact h.execLoad insn nextPc
  next hop => exact hstore (BitVec.eq_of_toNat_eq hop)
  · exact h.bind (h.wrM _ _) fun _ => ends_pure _
  · exact h.bind (h.wrM _ _) fun _ => ends_pure _
  · exact h.bind (h.wr32 _ _) fun _ => ends_pure _
  · exact h.bind (h.wr32 _ _) fun _ => ends_pure _
  next hop => exact hamo (BitVec.eq_of_toNat_eq hop)
  · refine ends_ite ?_ (ends_pure _)
    exact h.bind (ends_modify h.jitFlush) fun _ => ends_pure _
  next hop => exact hsys (BitVec.eq_of_toNat_eq hop)
  all_goals first
    | exact h.execFp (hfp (by simp [IsFp, *])) nextPc
    | exact h.illegal insn

end Insn

/-! ## One preorder for instructions and traps -/

section Preorder

theorem LoadRules.ends (h : LoadRules R) : LoadEnds R R := ⟨h.wr, h.load, h.trap, h.jitFlush, trans_of R⟩

theorem ExecRules.ends (h : ExecRules R) : ExecEnds R R := { h.toLoad.ends with reserve := h.reserve, store := h.store }

omit [NetDevice] [IsPreorder Cpu R] in
theorem fpEnds_iff {c : Cpu} {p : FpResult × Cpu} : FpEnds R R c p ↔ R c p.2 := by
  unfold FpEnds
  rw [ite_self]

theorem LoadRules.wrM (h : LoadRules R) (rd : BitVec 5) (v : U64) : Leads R (wrM rd v) := ends_self.1 (h.ends.wrM rd v)

theorem LoadRules.illegal (h : LoadRules R) {α : Type} (insn : U32) : Leads R (illegal insn : Exec α) :=
  ends_self.1 (h.ends.illegal insn)

theorem LoadRules.fetchInsn (h : LoadRules R) (pc : U64) : Leads R (fetchInsn pc) := ends_self.1 (h.ends.fetchInsn pc)

theorem LoadRules.expandInsn (h : LoadRules R) (word : U32) : Leads R (expandInsn word) :=
  ends_self.1 (h.ends.expandInsn word)

theorem LoadRules.execCsr (h : LoadRules R) (hcsr : ∀ csr val c, R c (csrWriteChecked csr val c)) (insn : U32)
    (nextPc : U64) : Leads R (execCsr insn nextPc) := ends_self.1 (h.ends.execCsr hcsr insn nextPc)

theorem LoadRules.execSystem (h : LoadRules R) {insn : U32} (hret : IsReturn insn → ∀ c, R c (mret c) ∧ R c (sret c))
    (hhalt : ∀ c, R c { c with halted := true }) (hflush : ∀ c, R c (rv64TlbFlush c)) (nextPc : U64) :
    Leads R (execSystem insn nextPc) := ends_self.1 (h.ends.execSystem hret hhalt hflush nextPc)

variable [HostFp]

theorem LoadRules.rv64FpExec (h : LoadRules R) {insn : U32} {c : Cpu}
    (hstore : (opcode insn).toNat = 0x27 → ∀ va size val, Leads R (cpuStore va size val))
    (hdirty : ∀ c, R c (markFsDirty c)) (hf : ∀ c f, R c { c with f := f })
    (hcompute : ∀ d, fpCompute (markFsDirty c) insn = some d → R (markFsDirty c) d) : R c (rv64FpExec insn c).2 :=
  fpEnds_iff.1 (h.ends.rv64FpExec hstore hdirty hf hcompute)

theorem ExecRules.rv64FpExec (h : ExecRules R) {insn : U32} {c : Cpu} (hdirty : ∀ c, R c (markFsDirty c))
    (hf : ∀ c f, R c { c with f := f })
    (hcompute : ∀ d, fpCompute (markFsDirty c) insn = some d → R (markFsDirty c) d) : R c (PgLinux.rv64FpExec insn c).2 :=
  h.toLoad.rv64FpExec (fun _ => h.store) hdirty hf hcompute

/-- **An instruction leads where its parts lead**, its traps among them. -/
theorem LoadRules.execInsn (h : LoadRules R) {insn : U32} {nextPc : U64}
    (hstore : opcode insn = 0x23 → Leads R (PgLinux.execStore insn nextPc))
    (hamo : opcode insn = 0x2F → Leads R (PgLinux.execAmo insn nextPc))
    (hfp : IsFp insn → ∀ c, R c (PgLinux.rv64FpExec insn c).2) (hsys : opcode insn = 0x73 →
      Leads R (if funct3 insn = 0 then PgLinux.execSystem insn nextPc else PgLinux.execCsr insn nextPc)) (pc : U64) :
    Leads R (execInsn insn pc nextPc) :=
  ends_self.1 (h.ends.execInsn (fun hop => ends_self.2 (hstore hop)) (fun hop => ends_self.2 (hamo hop))
    (fun hop c => fpEnds_iff.2 (hfp hop c)) (fun hop => ends_self.2 (hsys hop)) pc)

theorem ExecRules.execInsn (h : ExecRules R) {insn : U32} {nextPc : U64}
    (hfp : IsFp insn → ∀ c, R c (PgLinux.rv64FpExec insn c).2) (hsys : opcode insn = 0x73 →
      Leads R (if funct3 insn = 0 then PgLinux.execSystem insn nextPc else PgLinux.execCsr insn nextPc)) (pc : U64) :
    Leads R (PgLinux.execInsn insn pc nextPc) :=
  h.toLoad.execInsn (fun _ => ends_self.1 (h.ends.execStore insn nextPc))
    (fun _ => ends_self.1 (h.ends.execAmo insn nextPc)) hfp hsys pc

end Preorder

theorem StepRules.csrWriteChecked (h : StepRules R) (csr : BitVec 12) (val : U64) (c : Cpu) :
    R c (csrWriteChecked csr val c) := by
  have hpending : CoreFrame (PgLinux.csrWrite c csr val) { PgLinux.csrWrite c csr val with pending_irq_check := true } :=
    ⟨rfl, rfl, rfl, rfl, rfl, rfl, rfl, rfl⟩
  unfold PgLinux.csrWriteChecked
  dsimp only
  split
  · exact trans_of R (h.csrWrite c csr val) (h.core hpending)
  · exact h.csrWrite c csr val

theorem ThenReturns.core (h : StepRules R) {c c' c'' : Cpu} (hc : ThenReturns R c c') (hcore : CoreFrame c' c'') :
    ThenReturns R c c'' := by
  rcases hc with hc | ⟨m, hm, hret | hret⟩
  · exact .inl (trans_of R hc (h.core hcore))
  · exact .inr ⟨m, hm, .inl (trans_of CoreFrame hret hcore)⟩
  · exact .inr ⟨m, hm, .inr (trans_of CoreFrame hret hcore)⟩

/-- A compilation leads where its fetches lead. -/
theorem compileLoop_leads (hload : ∀ va size access, Leads R (rv64CpuLoad va size access)) (disabled : BitVec 128) :
    ∀ (n : Nat) (k : Compile) (c : Cpu), R c (compileLoop disabled n k c).2
  | 0, _, c => refl_of R c
  | n + 1, k, c => by
    have hc := hload k.pc 4 .exec c
    unfold PgLinux.compileLoop
    cases hr : rv64CpuLoad k.pc 4 .exec c with
    | error exc c' =>
      rw [hr] at hc
      exact hc
    | ok v c' =>
      rw [hr] at hc
      dsimp only
      split
      · exact hc
      · split
        · exact hc
        · exact trans_of R hc (compileLoop_leads hload disabled n _ c')

theorem StepRules.checkInterrupts_poll (h : StepRules R) (hnet : ∀ c, R c (pollNet c)) (c : Cpu) :
    R c (PgLinux.checkInterrupts c).1 := by
  have hmip : R c (updateMip c) := h.core ⟨rfl, rfl, rfl, rfl, rfl, rfl, rfl, rfl⟩
  have hpoll : R (updateMip c) (pollNet (updateMip c)) := hnet _
  unfold PgLinux.checkInterrupts
  dsimp only
  split
  next cause _ =>
    refine trans_of R (trans_of R hmip hpoll) (trans_of R (h.trap _ cause 0) ?_)
    generalize PgLinux.trap (pollNet (updateMip c)) cause 0 = d
    exact h.core ⟨rfl, rfl, rfl, rfl, rfl, rfl, rfl, rfl⟩
  · exact trans_of R hmip hpoll

theorem StepRules.checkInterrupts (h : StepRules R) (hbus : ∀ c b, R c { c with bus := b }) (c : Cpu) :
    R c (checkInterrupts c).1 :=
  h.checkInterrupts_poll (fun c => by
    unfold pollNet
    split
    · exact hbus c _
    · exact refl_of R c) c

variable [HostFp]

theorem StepRules.rv64FpExec (h : StepRules R) (insn : U32) (c : Cpu) : R c (PgLinux.rv64FpExec insn c).2 :=
  h.toExec.rv64FpExec (fun c => h.core (markFsDirty_core c)) (fun _ _ => h.core ⟨rfl, rfl, rfl, rfl, rfl, rfl, rfl, rfl⟩)
    (fun d hd => h.core (fpCompute_regs _ insn d hd).core)

/-- **An instruction that is no return leads where its parts lead.** -/
theorem StepRules.execInsn (h : StepRules R) {insn : U32} (hret : ¬ IsReturn insn) (pc nextPc : U64) :
    Leads R (execInsn insn pc nextPc) := by
  have hhalt : ∀ c, R c { c with halted := true } := fun c => h.core ⟨rfl, rfl, rfl, rfl, rfl, rfl, rfl, rfl⟩
  have hsystem : Leads R (execSystem insn nextPc) :=
    h.toExec.toLoad.execSystem (fun hr => absurd hr hret) hhalt h.tlbFlush nextPc
  exact h.toExec.execInsn (fun _ => h.rv64FpExec insn)
    (fun _ => leads_ite hsystem (h.toExec.toLoad.execCsr h.csrWriteChecked insn nextPc)) pc

/-! ## A whole step -/

theorem StepRules.execReturn (h : StepRules R) {insn : U32} (hret : IsReturn insn) (pc nextPc : U64) :
    Leads (ThenReturns R) (PgLinux.execInsn insn pc nextPc) := by
  intro c
  obtain rfl | rfl := hret
  · show ThenReturns R c (final ((if c.priv < privM then PgLinux.illegal 0x30200073
      else do set (mret c); return c.csr.mepc : Exec U64) c))
    split
    · exact .inl (h.toExec.toLoad.illegal _ c)
    · exact .inr ⟨c, refl_of R c, .inl (refl_of CoreFrame _)⟩
  · show ThenReturns R c (final ((if c.priv < privS then PgLinux.illegal 0x10200073
      else do set (sret c); return c.csr.sepc : Exec U64) c))
    split
    · exact .inl (h.toExec.toLoad.illegal _ c)
    · exact .inr ⟨c, refl_of R c, .inr (refl_of CoreFrame _)⟩

theorem StepRules.stepBody (h : StepRules R) : Leads (ThenReturns R) stepBody := by
  have hexec : ∀ insn pc nextPc, Leads (ThenReturns R) (PgLinux.execInsn insn pc nextPc) := by
    intro insn pc nextPc
    by_cases hret : IsReturn insn
    · exact h.execReturn hret pc nextPc
    · exact (h.execInsn hret pc nextPc).mono fun _ _ => .inl
  have hlog : ∀ word, Leads R (modify (logInsn word) : Exec Unit) := fun word =>
    leads_modify fun _ => h.core ⟨rfl, rfl, rfl, rfl, rfl, rfl, rfl, rfl⟩
  have hretire : ∀ nextPc, Leads CoreFrame (modify (retire nextPc) : Exec Unit) := fun nextPc =>
    leads_modify fun _ => ⟨rfl, rfl, rfl, rfl, rfl, rfl, rfl, rfl⟩
  have hstart : Leads R (modify checkBreak : Exec Unit) := leads_modify fun c => h.core (checkBreak_core c)
  unfold PgLinux.stepBody
  refine leads_bind_comp hstart (fun _ => ?_) (fun _ _ _ => ThenReturns.head) fun _ _ => .inl
  refine leads_get_bind fun c => ?_
  dsimp only
  refine leads_bind_comp (h.toExec.toLoad.fetchInsn _) (fun word => ?_) (fun _ _ _ => ThenReturns.head) fun _ _ => .inl
  refine leads_bind_comp (hlog word) (fun _ => ?_) (fun _ _ _ => ThenReturns.head) fun _ _ => .inl
  refine leads_bind_comp (h.toExec.toLoad.expandInsn word) (fun insn => ?_) (fun _ _ _ => ThenReturns.head) fun _ _ => .inl
  exact leads_bind_comp (hexec insn _ _) hretire (fun _ _ _ => ThenReturns.core h) fun _ _ => id

theorem Fetches.rv64Step {c d : Cpu} {word insn : U32} (h : Fetches c word insn d) :
    PgLinux.rv64Step c = final ((do
      modify (retire (← PgLinux.execInsn insn c.pc (c.pc + insnBytes (isCompressed word)))) : Exec Unit) (logInsn word d)) := by
  unfold PgLinux.rv64Step
  rw [if_neg (by rw [h.running]; decide), stepBody_fetched h.fetch h.expand]

theorem Fetches.rv64Step_ok {c d e : Cpu} {word insn : U32} {nextPc : U64} (h : Fetches c word insn d)
    (hexec : PgLinux.execInsn insn c.pc (c.pc + insnBytes (isCompressed word)) (logInsn word d) = .ok nextPc e) :
    PgLinux.rv64Step c = retire nextPc e := by
  rw [h.rv64Step, bind_of_ok hexec]
  rfl

theorem Fetches.rv64Step_error {c d e : Cpu} {word insn : U32} (h : Fetches c word insn d)
    (hexec : PgLinux.execInsn insn c.pc (c.pc + insnBytes (isCompressed word)) (logInsn word d) = .error () e) :
    PgLinux.rv64Step c = e := by
  rw [h.rv64Step, bind_of_error hexec]
  rfl

/-- **A step executes an instruction, or leads where its fetch and its trap lead.** -/
theorem ExecRules.rv64Step_fetches (h : ExecRules R) (hbreak : ∀ c, R c (PgLinux.checkBreak c))
    (hlog : ∀ word c, R c (logInsn word c)) (c : Cpu) :
    R c (PgLinux.rv64Step c) ∨ ∃ word insn d, Fetches c word insn d ∧ R c (logInsn word d) := by
  cases hhalt : c.halted with
  | true =>
    unfold PgLinux.rv64Step
    rw [if_pos hhalt]
    exact .inl (refl_of R c)
  | false =>
    have hfetch := h.toLoad.fetchInsn c.pc (PgLinux.checkBreak c)
    cases hf : PgLinux.fetchInsn c.pc (PgLinux.checkBreak c) with
    | error e d =>
      rw [hf] at hfetch
      unfold PgLinux.rv64Step
      rw [if_neg (by rw [hhalt]; decide), stepBody_eq, hf]
      exact .inl (trans_of R (hbreak c) hfetch)
    | ok word d =>
      rw [hf] at hfetch
      have hd : R c (logInsn word d) := trans_of R (trans_of R (hbreak c) hfetch) (hlog word d)
      rcases expandInsn_cases word with ⟨insn, he⟩ | he
      · exact .inr ⟨word, insn, d, ⟨hhalt, hf, he⟩, hd⟩
      · unfold PgLinux.rv64Step
        rw [if_neg (by rw [hhalt]; decide), stepBody_eq, hf]
        unfold afterFetch
        dsimp only
        rw [he]
        exact .inl (trans_of R hd (h.trap _ _ _))

/-- **A step leads where its parts lead, unless it fetches a return.** -/
theorem StepRules.rv64Step_fetches (h : StepRules R) (c : Cpu) :
    R c (PgLinux.rv64Step c) ∨ ∃ word insn d, IsReturn insn ∧ Fetches c word insn d := by
  have hretire : ∀ nextPc, Leads R (modify (retire nextPc) : Exec Unit) := fun nextPc =>
    leads_modify fun _ => h.core ⟨rfl, rfl, rfl, rfl, rfl, rfl, rfl, rfl⟩
  rcases h.toExec.rv64Step_fetches (fun c => h.core (checkBreak_core c))
    (fun _ _ => h.core ⟨rfl, rfl, rfl, rfl, rfl, rfl, rfl, rfl⟩) c with hc | ⟨word, insn, d, hf, hd⟩
  · exact .inl hc
  · by_cases hret : IsReturn insn
    · exact .inr ⟨word, insn, d, hret, hf⟩
    · rw [hf.rv64Step]
      exact .inl (trans_of R hd (leads_bind (h.execInsn hret _ _) hretire _))

/-- **A step leads where its parts lead, and may end in a return.** -/
theorem StepRules.rv64Step (h : StepRules R) (c : Cpu) : ThenReturns R c (rv64Step c) := by
  unfold PgLinux.rv64Step
  split
  · exact .inl (refl_of R c)
  · exact h.stepBody c

end Rules

/-! ## Blocks -/

/-- The operand an operation assigns. -/
def SljitOp.dest : SljitOp → Option Operand
  | .mov _ dst _ | .op2 _ dst _ _ => some dst
  | _ => none

section Blocks

variable [NetDevice] [HostFp] {R : Cpu → Cpu → Prop}

/-- What the operations of a block may do to the machine. -/
structure BlockRules (R : Cpu → Cpu → Prop) (ops : List SljitOp) : Prop where
  pc : ∀ c pc, R c { c with pc := pc }
  write : ∀ op ∈ ops, ∀ r, op.dest = some (.x r) → ∀ v c, R c (setX r v c)
  load : ∀ va size access, Leads R (rv64CpuLoad va size access)
  store : ∀ va size val, Leads R (cpuStore va size val)
  fpExec : .icall .fpExec ∈ ops → ∀ insn c, R c (PgLinux.rv64FpExec insn c).2

theorem BlockRules.tail {op : SljitOp} {ops : List SljitOp} (h : BlockRules R (op :: ops)) : BlockRules R ops where
  pc := h.pc
  write o ho := h.write o (List.mem_cons_of_mem _ ho)
  load := h.load
  store := h.store
  fpExec hm := h.fpExec (List.mem_cons_of_mem _ hm)

theorem BlockRules.call {ops : List SljitOp} (h : BlockRules R ops) (s : JState) {f : ICall} (hf : .icall f ∈ ops) :
    R s.cpu (s.call f).cpu := by
  cases f with
  | load =>
    have hc := h.load (s.regs .R1) (s.regs .R2).toNat .read s.cpu
    unfold JState.call
    dsimp only
    cases hr : rv64CpuLoad (s.regs .R1) (s.regs .R2).toNat .read s.cpu <;> (rw [hr] at hc; exact hc)
  | store =>
    have hc := h.store (s.regs .R1) (s.regs .R2).toNat (s.regs .R3) s.cpu
    unfold JState.call
    dsimp only
    cases hr : cpuStore (s.regs .R1) (s.regs .R2).toNat (s.regs .R3) s.cpu <;> (rw [hr] at hc; exact hc)
  | fpExec =>
    have hc := h.fpExec hf ((s.regs .R1).setWidth 32) s.cpu
    unfold JState.call
    dsimp only
    cases hr : PgLinux.rv64FpExec ((s.regs .R1).setWidth 32) s.cpu with
    | mk r c =>
      rw [hr] at hc
      cases r <;> exact hc

variable [IsPreorder Cpu R]

theorem BlockRules.assign {ops : List SljitOp} (h : BlockRules R ops) {op : SljitOp} (hop : op ∈ ops) {s s' : JState}
    (hs : s'.cpu = s.cpu) {dst : Operand} (hdst : op.dest = some dst) (v : U64) : R s.cpu (s'.write dst v).cpu := by
  rw [← hs]
  cases dst with
  | x r => exact h.write op hop r hdst v s'.cpu
  | pc => exact h.pc s'.cpu v
  | reg r => exact refl_of R s'.cpu
  | imm v => exact refl_of R s'.cpu
  | loc => exact refl_of R s'.cpu

theorem BlockRules.exec {ops : List SljitOp} (h : BlockRules R ops) (s : JState) {op : SljitOp} (hop : op ∈ ops) :
    R s.cpu (s.exec op).cpu := by
  cases op with
  | mov t dst src => exact h.assign hop rfl rfl _
  | op2 op dst a b => exact h.assign hop (by split <;> rfl) rfl _
  | flags dst c => exact refl_of R s.cpu
  | localBase dst => exact refl_of R s.cpu
  | icall f => exact h.call s hop
  | cmp c a b l => exact refl_of R s.cpu
  | jump l => exact refl_of R s.cpu
  | label l => exact refl_of R s.cpu

/-- **A block leads where its operations lead.** -/
theorem BlockRules.runOps : ∀ {ops : List SljitOp}, BlockRules R ops → ∀ (mode : Option Label) (s : JState),
    R s.cpu (runOps mode ops s).2.cpu
  | [], _, none, s => refl_of R s.cpu
  | [], _, some _, s => refl_of R s.cpu
  | _ :: _, h, some _, s => h.tail.runOps _ s
  | _ :: _, h, none, s => trans_of R (h.exec s List.mem_cons_self) (h.tail.runOps _ _)

theorem StepRules.toBlock (h : StepRules R) (ops : List SljitOp) : BlockRules R ops where
  pc _ _ := h.core ⟨rfl, rfl, rfl, rfl, rfl, rfl, rfl, rfl⟩
  write _ _ r _ v c := h.core (setX_regs r v c).core
  load := h.load
  store := h.store
  fpExec _ := h.rv64FpExec

/-- **A block is looked up or compiled, and run.** -/
theorem BlockRules.jitExec (hops : ∀ ops, BlockRules R ops) (hinstret : ∀ c n, R c { c with instret := n }) {c : Cpu}
    (hlookup : ∀ j, c.jit = some j → R c (lookupBlock j c).2) (undef : U64) : R c (jitExec undef c).2 := by
  unfold PgLinux.jitExec
  split
  · exact refl_of R c
  next j hj =>
    split
    · exact refl_of R c
    · dsimp only
      split
      · exact hlookup j hj
      next code _ =>
        have hrun : R (lookupBlock j c).2 (runBlock undef code (lookupBlock j c).2).cpu :=
          (hops code).runOps none ⟨(lookupBlock j c).2, fun _ => undef, undef, false, false, undef⟩
        exact trans_of R (trans_of R (hlookup j hj) hrun) (hinstret _ _)

omit [HostFp] in
theorem lookupBlock_leads (hload : ∀ va size access, Leads R (rv64CpuLoad va size access))
    (hblock : ∀ b c, R c (storeBlock b c)) (j : JitState) (c : Cpu) : R c (lookupBlock j c).2 := by
  unfold PgLinux.lookupBlock
  dsimp only
  split
  · exact trans_of R (compileLoop_leads hload _ _ _ c) (hblock _ _)
  · exact refl_of R c

theorem ExecRules.jitExec (h : ExecRules R) (hblock : ∀ b c, R c (storeBlock b c)) (hops : ∀ ops, BlockRules R ops)
    (hinstret : ∀ c n, R c { c with instret := n }) (undef : U64) (c : Cpu) : R c (jitExec undef c).2 :=
  BlockRules.jitExec hops hinstret (fun j _ => lookupBlock_leads h.load hblock j c) undef

theorem StepRules.jitExec (h : StepRules R) (hblock : ∀ b c, R c (storeBlock b c)) (undef : U64) (c : Cpu) :
    R c (jitExec undef c).2 :=
  h.toExec.jitExec hblock h.toBlock (fun _ _ => h.core ⟨rfl, rfl, rfl, rfl, rfl, rfl, rfl, rfl⟩) undef c

/-- **Every move of the run loops leads where the rules allow.** -/
theorem StepRules.machineStep_jit (h : StepRules R) (hbus : ∀ c b, R c { c with bus := b })
    (hjit : ∀ undef c, R c (PgLinux.jitExec undef c).2) {c c' : Cpu} (hs : MachineStep c c') : ThenReturns R c c' := by
  cases hs with
  | step => exact h.rv64Step c
  | jit undef => exact .inl (hjit undef c)
  | interrupts => exact .inl (h.checkInterrupts hbus c)
  | tick _ mtime =>
    have hclock := hbus c { c.bus with clint := { c.bus.clint with mtime := mtime } }
    refine .inl (trans_of R hclock ?_)
    exact h.core ⟨rfl, rfl, rfl, rfl, rfl, rfl, rfl, rfl⟩

theorem StepRules.machineStep (h : StepRules R) (hbus : ∀ c b, R c { c with bus := b })
    (hblock : ∀ b c, R c (storeBlock b c)) {c c' : Cpu} (hs : MachineStep c c') : ThenReturns R c c' :=
  h.machineStep_jit hbus (h.jitExec hblock) hs

end Blocks

end PgLinux
