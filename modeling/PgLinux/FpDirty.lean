import PgLinux.FpStatus
import PgLinux.Lib.Runs
/-!
# FpDirty — FS and SD over whole runs

A run keeps the books on the FPU registers as long as no FPU instruction finds FS other than Dirty, and software writes
`mstatus`, `sstatus` and `fcsr` with care.
-/
namespace PgLinux

open Prog

/-! ## One step -/

/-- What the bookkeeping does not follow: an FPU instruction while FS is not Dirty, since SD stays clear, and a CSR write
that loses. -/
def InsnLoses (c : Cpu) (insn : U32) : Prop :=
  IsFp insn ∧ statusFs c.csr.mstatus ≠ 3 ∨
    AccessesCsr insn ∧ ∃ old, csrRead c (csrAddr insn) = some old ∧ CsrStores insn (csrSrc c insn) ∧
      WriteLoses c (csrAddr insn) old (csrNew insn old (csrSrc c insn))

/-- What every move keeps. -/
structure FpInv (c : Cpu) : Prop where
  priv : c.priv.toNat < 4
  fcsr : FcsrOk c

theorem FpSame.inv {c c' : Cpu} (h : FpSame c c') (hi : FpInv c) : FpInv c' := by
  refine ⟨h.priv, ?_⟩
  unfold FcsrOk
  rw [h.fcsr]
  exact hi.fcsr

theorem FpSame.exact {c c' : Cpu} (h : FpSame c c') : SdExact c' ↔ SdExact c := by
  rw [sdExact_iff, sdExact_iff, h.status.sd, h.status.fs]

theorem FpSame.shown {c c' : Cpu} (h : FpSame c c') : Shown c c' := by
  intro hne
  exact absurd hne (by simp [h.f, h.fcsr])

theorem FpDirtied.inv {c c' : Cpu} (h : FpDirtied c c') (hi : FpInv c) : FpInv c' := by
  refine ⟨h.priv, ?_⟩
  unfold FcsrOk
  rw [h.fcsr]
  exact hi.fcsr

/-- Once FS is Dirty, SD is exact if it was and FS was Dirty before. -/
theorem FpDirtied.exact {c c' : Cpu} (h : FpDirtied c c') (hsd : SdExact c) (hfs : statusFs c'.csr.mstatus = 3) :
    SdExact c' ↔ statusFs c.csr.mstatus = 3 := by
  rw [sdExact_iff] at hsd ⊢
  rw [h.sd, ← hsd]
  simp [hfs]

/-- `FpInv` is kept. -/
def InvMove (c c' : Cpu) : Prop := FpInv c → FpInv c'

instance : IsPreorder Cpu InvMove where
  refl _ := id
  trans _ _ _ h h' := h' ∘ h

theorem FpFrame.inv {c c' : Cpu} (h : FpFrame c c') : InvMove c c' := fun hi => (h hi.priv).inv hi

theorem FpMove.inv {c c' : Cpu} (h : FpMove c c') : InvMove c c' := fun hi => (h hi.priv).inv hi

theorem csrWriteChecked_inv (csr : BitVec 12) (val : U64) (c : Cpu) : InvMove c (csrWriteChecked csr val c) := by
  intro hi
  obtain ⟨-, hfcsr, -, hpriv⟩ := csrWriteChecked_fields csr val c
  refine ⟨by rw [hpriv]; exact hi.priv, ?_⟩
  unfold FcsrOk
  rw [hfcsr]
  exact csrWrite_fcsrOk hi.fcsr csr val

/-- What is asked of one move. -/
def Bookkept (c c' : Cpu) : Prop := SdExact c' ∧ Shown c c'

theorem FpSame.bookkept {c c' : Cpu} (h : FpSame c c') (hsd : SdExact c) : Bookkept c c' := ⟨h.exact.2 hsd, h.shown⟩

theorem FpSame.bookkept_left {c d e : Cpu} (h : FpSame c d) : Bookkept c e ↔ Bookkept d e := by
  unfold Bookkept Shown
  rw [h.f, h.fcsr]

theorem FpSame.bookkept_right {c d e : Cpu} (h : FpSame d e) : Bookkept c e ↔ Bookkept c d := by
  unfold Bookkept Shown
  rw [h.f, h.fcsr, h.exact, readsDirty_iff, readsDirty_iff, h.status.fs]

theorem fpSame_of_access {c c' : Cpu} (h : AccessFrame c c') (hp : c.priv.toNat < 4) : FpSame c c' := by
  obtain ⟨t, b, d, rfl⟩ := h
  exact ⟨hp, rfl, rfl, fun _ _ => rfl⟩

/-- A read of the status registers or of `fcsr` does not look at memory. -/
theorem csrRead_access {c c' : Cpu} (h : AccessFrame c c') {csr : BitVec 12}
    (hcsr : csr ∈ statusCsrs ∨ ∃ mask, fcsrMask csr = some mask) : csrRead c' csr = csrRead c csr := by
  obtain ⟨t, b, d, rfl⟩ := h
  have hcases : csr = 0x300 ∨ csr = 0x100 ∨ csr = 0x001 ∨ csr = 0x002 ∨ csr = 0x003 := by
    rcases hcsr with hcsr | ⟨mask, hmask⟩
    · simp only [statusCsrs, List.mem_cons, List.not_mem_nil, or_false] at hcsr
      exact hcsr.elim .inl (.inr ∘ .inl)
    · unfold fcsrMask at hmask
      split at hmask
      next h => exact .inr (.inr (.inl (BitVec.eq_of_toNat_eq h)))
      next h => exact .inr (.inr (.inr (.inl (BitVec.eq_of_toNat_eq h))))
      next h => exact .inr (.inr (.inr (.inr (BitVec.eq_of_toNat_eq h))))
      next => cases hmask
  rcases hcases with rfl | rfl | rfl | rfl | rfl <;> rfl

theorem WriteLoses.csr {c : Cpu} {csr : BitVec 12} {old new : U64} (h : WriteLoses c csr old new) :
    csr ∈ statusCsrs ∨ ∃ mask, fcsrMask csr = some mask := by
  rcases h with ⟨hstatus, -⟩ | ⟨-, mask, hmask, -⟩
  · exact .inl hstatus
  · exact .inr ⟨mask, hmask⟩

theorem not_isFp_of_accessesCsr {insn : U32} (h : AccessesCsr insn) : ¬ IsFp insn := by
  unfold IsFp
  rw [h.1]
  decide

section Step

variable [NetDevice]

theorem invMove_rules : ExecRules InvMove := fpFrame_rules.mono fun _ _ => FpFrame.inv

variable [HostFp]

theorem execInsn_csrAccess {insn : U32} (h : AccessesCsr insn) (pc nextPc : U64) (c : Cpu) :
    execInsn insn pc nextPc c = execCsr insn nextPc c := by
  have hop : (opcode insn).toNat = 0x73 := by
    rw [h.1]
    rfl
  unfold execInsn
  rw [get_bind_apply]
  simp only [hop, if_neg h.2]

omit [NetDevice] [HostFp] in
/-- **A CSR instruction keeps the bookkeeping exactly when its write is not one that loses.** -/
theorem execCsr_bookkept {c e : Cpu} (hframe : AccessFrame c e) (hi : FpInv c) (hsd : SdExact c) {insn : U32}
    (hcsr : AccessesCsr insn) (nextPc : U64) : Bookkept e (final (execCsr insn nextPc e)) ↔ ¬ InsnLoses c insn := by
  have hsame := fpSame_of_access hframe hi.priv
  have hsde := hsame.exact.2 hsd
  have hfp := not_isFp_of_accessesCsr hcsr
  have hloses : InsnLoses c insn ↔ ∃ old, csrRead e (csrAddr insn) = some old ∧ CsrStores insn (csrSrc e insn) ∧
      WriteLoses e (csrAddr insn) old (csrNew insn old (csrSrc e insn)) := by
    have hread := @csrRead_access _ _ hframe (csrAddr insn)
    obtain ⟨t, b, d, rfl⟩ := hframe
    constructor
    · rintro (⟨h, -⟩ | ⟨-, old, hold, hstores, hl⟩)
      · exact absurd h hfp
      · exact ⟨old, (hread hl.csr).trans hold, hstores, hl⟩
    · rintro ⟨old, hold, hstores, hl⟩
      exact .inr ⟨hcsr, old, (hread hl.csr).symm.trans hold, hstores, hl⟩
  rw [hloses]
  cases hold : csrRead e (csrAddr insn) with
  | none =>
    rw [execCsr_none hold]
    have htrap := trap_fpFrame e excIllegalInsn (insn.setWidth 64) hsame.priv
    refine ⟨fun _ => ?_, fun _ => htrap.bookkept hsde⟩
    rintro ⟨old, h, -⟩
    cases h
  | some old =>
    rw [execCsr_stored hold]
    have hwr : ∀ c : Cpu, c.priv.toNat < 4 → FpSame c (c.wr (rd insn) old) := fun _ hp => ⟨hp, rfl, rfl, fun _ _ => rfl⟩
    by_cases hstores : CsrStores insn (csrSrc e insn)
    · rw [if_pos hstores]
      obtain ⟨-, -, -, hpriv⟩ := csrWriteChecked_fields (csrAddr insn) (csrNew insn old (csrSrc e insn)) e
      refine (hwr _ (by rw [hpriv]; exact hsame.priv)).bookkept_right.trans ?_
      refine (csrWriteChecked_shows (hsame.inv hi).fcsr hsde hold _).trans (not_congr ?_)
      simp [hstores]
    · rw [if_neg hstores]
      refine ⟨fun _ => ?_, fun _ => (hwr e hsame.priv).bookkept hsde⟩
      rintro ⟨_, -, h, -⟩
      exact hstores h

/-- **An FPU instruction keeps the bookkeeping exactly when FS was Dirty.** -/
theorem execFp_bookkept {c e : Cpu} (hsame : FpSame c e) (hsd : SdExact c) {insn : U32} (hfp : IsFp insn) (nextPc : U64) :
    Bookkept e (final (execFp insn nextPc e)) ↔ ¬ InsnLoses c insn := by
  obtain ⟨hdirtied, hfs⟩ := execFp_dirty insn nextPc hsame.priv
  have hcsr : ¬ AccessesCsr insn := fun h => not_isFp_of_accessesCsr h hfp
  have hshown : Shown e (final (execFp insn nextPc e)) := fun _ => (readsDirty_iff _).2 hfs
  unfold Bookkept InsnLoses
  rw [hdirtied.exact (hsame.exact.2 hsd) hfs, hsame.status.fs]
  simp [hfp, hcsr, hshown]

/-- Any other instruction keeps the FPU registers and what is said of them. -/
theorem execInsn_fpFrame {insn : U32} (hfp : ¬ IsFp insn) (hcsr : ¬ AccessesCsr insn) (pc nextPc : U64) :
    Leads FpFrame (execInsn insn pc nextPc) := by
  have hsystem : Leads FpFrame (execSystem insn nextPc) :=
    fpFrame_rules.toLoad.execSystem (fun _ c => ⟨mret_fpFrame c, sret_fpFrame c⟩) (fun _ => fpFrame_of rfl rfl rfl fun _ _ => rfl)
      (fun _ => fpFrame_of rfl rfl rfl fun _ _ => rfl) nextPc
  refine fpFrame_rules.execInsn (fun h => absurd h hfp) (fun hop => ?_) pc
  rw [if_pos (by_contra fun hne => hcsr ⟨hop, hne⟩)]
  exact hsystem

/-- **What is executed keeps the bookkeeping exactly when it is not an instruction that loses.** -/
theorem execInsn_bookkept {c e : Cpu} (hframe : AccessFrame c e) (hi : FpInv c) (hsd : SdExact c) (insn : U32)
    (pc nextPc : U64) : Bookkept e (final (execInsn insn pc nextPc e)) ↔ ¬ InsnLoses c insn := by
  have hsame := fpSame_of_access hframe hi.priv
  by_cases hfp : IsFp insn
  · rw [execInsn_fpOpcode hfp]
    exact execFp_bookkept hsame hsd hfp nextPc
  by_cases hcsr : AccessesCsr insn
  · rw [execInsn_csrAccess hcsr]
    exact execCsr_bookkept hframe hi hsd hcsr nextPc
  · have h := execInsn_fpFrame hfp hcsr pc nextPc e hsame.priv
    have hloses : ¬ InsnLoses c insn := by simp [InsnLoses, hfp, hcsr]
    exact ⟨fun _ => hloses, fun _ => h.bookkept (hsame.exact.2 hsd)⟩

theorem execInsn_inv (insn : U32) (pc nextPc : U64) : Leads InvMove (execInsn insn pc nextPc) := by
  have hsystem : Leads InvMove (execSystem insn nextPc) :=
    invMove_rules.toLoad.execSystem (fun _ c => ⟨(mret_fpFrame c).inv, (sret_fpFrame c).inv⟩)
      (fun _ => FpFrame.inv (fpFrame_of rfl rfl rfl fun _ _ => rfl))
      (fun _ => FpFrame.inv (fpFrame_of rfl rfl rfl fun _ _ => rfl)) nextPc
  exact invMove_rules.execInsn (fun _ c => (fpMove_rv64FpExec insn c).inv)
    (fun _ => leads_ite hsystem (invMove_rules.toLoad.execCsr csrWriteChecked_inv insn nextPc)) pc

theorem rv64Step_inv (c : Cpu) : InvMove c (rv64Step c) := by
  rcases invMove_rules.rv64Step_fetches (fun c => (checkBreak_fpFrame c).inv) (fun word c => (logInsn_fpFrame word c).inv) c
    with h | ⟨word, insn, d, hf, hd⟩
  · exact h
  · rw [hf.rv64Step]
    exact trans_of InvMove hd
      (leads_bind (execInsn_inv insn _ _) (fun _ => leads_modify fun c => (retire_fpFrame _ c).inv) _)

/-! ## A step -/

/-- The machine fetches an instruction that loses. -/
def StepLoses (c : Cpu) : Prop := ∃ word insn d, Fetches c word insn d ∧ InsnLoses c insn

theorem Fetches.bookkept_iff {c d : Cpu} {word insn : U32} (hf : Fetches c word insn d) (hi : FpInv c) (hsd : SdExact c) :
    Bookkept c (PgLinux.rv64Step c) ↔ ¬ InsnLoses c insn := by
  have hframe : AccessFrame c (logInsn word d) := by
    obtain ⟨t, b, g, rfl⟩ := hf.frame
    exact ⟨t, b, _, rfl⟩
  have hexec := execInsn_bookkept hframe hi hsd insn c.pc (c.pc + insnBytes (isCompressed word))
  have hinv := execInsn_inv insn c.pc (c.pc + insnBytes (isCompressed word)) (logInsn word d)
    ((fpSame_of_access hframe hi.priv).inv hi)
  rw [← hexec, (fpSame_of_access hframe hi.priv).bookkept_left]
  cases hr : execInsn insn c.pc (c.pc + insnBytes (isCompressed word)) (logInsn word d) with
  | ok nextPc e =>
    rw [hr] at hinv
    rw [hf.rv64Step_ok hr]
    exact (retire_fpFrame nextPc e hinv.priv).bookkept_right
  | error u e =>
    rw [hf.rv64Step_error hr]
    exact Iff.rfl

/-- **A step keeps the bookkeeping exactly when it does not fetch an instruction that loses.** -/
theorem rv64Step_bookkept {c : Cpu} (hi : FpInv c) (hsd : SdExact c) : Bookkept c (rv64Step c) ↔ ¬ StepLoses c := by
  constructor
  · rintro h ⟨word, insn, d, hf, hl⟩
    exact (hf.bookkept_iff hi hsd).1 h hl
  · intro h
    rcases fpFrame_rules.rv64Step_fetches checkBreak_fpFrame logInsn_fpFrame c with hs | ⟨word, insn, d, hf, -⟩
    · exact (hs hi.priv).bookkept hsd
    · exact (hf.bookkept_iff hi hsd).2 fun hl => h ⟨word, insn, d, hf, hl⟩

end Step

/-! ## Blocks -/

section Blocks

variable [NetDevice] [HostFp]

/-- The block calls the FPU, with the machine as `s` has it. -/
def callsFp : Option Label → List SljitOp → JState → Bool
  | _, [], _ => false
  | some l, op :: ops, s => callsFp (if op = .label l then none else some l) ops s
  | none, op :: ops, s => op == .icall .fpExec || callsFp (s.target op) ops (s.exec op)

/-- `P` from each operation that the block runs to the next. -/
def OpsAlong (P : Cpu → Cpu → Prop) : Option Label → List SljitOp → JState → Prop
  | _, [], _ => True
  | some l, op :: ops, s => OpsAlong P (if op = .label l then none else some l) ops s
  | none, op :: ops, s => P s.cpu (s.exec op).cpu ∧ OpsAlong P (s.target op) ops (s.exec op)

theorem fpFrame_block {ops : List SljitOp} (h : .icall .fpExec ∉ ops) : BlockRules FpFrame ops where
  pc _ _ := fpFrame_of rfl rfl rfl fun _ _ => rfl
  write _ _ _ _ _ _ := fpFrame_of rfl rfl rfl fun _ _ => rfl
  load va size access := fpFrame_access (rv64CpuLoad_frame va size access)
  store va size val := fpFrame_access (cpuStore_frame va size val)
  fpExec hm := absurd hm h

theorem exec_fpFrame (s : JState) {op : SljitOp} (h : op ≠ .icall .fpExec) : FpFrame s.cpu (s.exec op).cpu :=
  have hnot : .icall .fpExec ∉ [op] := by simpa using h.symm
  (fpFrame_block hnot).exec s (List.mem_singleton_self op)

/-- A call of the FPU leaves FS at Dirty, and SD as it was. -/
theorem exec_fpExec (s : JState) (hp : s.cpu.priv.toNat < 4) :
    FpDirtied s.cpu (s.exec (.icall .fpExec)).cpu ∧ statusFs (s.exec (.icall .fpExec)).cpu.csr.mstatus = 3 := by
  have h := rv64FpExec_dirty ((s.regs .R1).setWidth 32) hp
  show FpDirtied s.cpu (s.call .fpExec).cpu ∧ statusFs (s.call .fpExec).cpu.csr.mstatus = 3
  unfold JState.call
  dsimp only
  cases hr : rv64FpExec ((s.regs .R1).setWidth 32) s.cpu with
  | mk r c =>
    rw [hr] at h
    cases r <;> exact h

theorem exec_dirtied (s : JState) (op : SljitOp) (hp : s.cpu.priv.toNat < 4) : FpDirtied s.cpu (s.exec op).cpu := by
  by_cases hop : op = .icall .fpExec
  · subst hop
    exact (exec_fpExec s hp).1
  · exact (exec_fpFrame s hop).move hp

theorem exec_shown (s : JState) (op : SljitOp) (hp : s.cpu.priv.toNat < 4) : Shown s.cpu (s.exec op).cpu := by
  by_cases hop : op = .icall .fpExec
  · subst hop
    exact fun _ => (readsDirty_iff _).2 (exec_fpExec s hp).2
  · exact (exec_fpFrame s hop hp).shown

/-- **Every change inside a block is shown at once.** -/
theorem opsAlong_shown : ∀ (ops : List SljitOp) (mode : Option Label) (s : JState), s.cpu.priv.toNat < 4 →
    OpsAlong Shown mode ops s
  | [], none, _, _ => trivial
  | [], some _, _, _ => trivial
  | _ :: ops, some _, s, hp => opsAlong_shown ops _ s hp
  | op :: ops, none, s, hp => ⟨exec_shown s op hp, opsAlong_shown ops _ _ (exec_dirtied s op hp).priv⟩

/-- **A block that does not call the FPU leaves its registers and the status bits alone; after a call FS is Dirty.** -/
theorem runOps_fp : ∀ (ops : List SljitOp) (mode : Option Label) (s : JState), s.cpu.priv.toNat < 4 →
    FpDirtied s.cpu (runOps mode ops s).2.cpu ∧ (callsFp mode ops s = false → FpSame s.cpu (runOps mode ops s).2.cpu) ∧
      (callsFp mode ops s = true → statusFs (runOps mode ops s).2.cpu.csr.mstatus = 3)
  | [], none, s, hp => ⟨refl_of FpMove s.cpu hp, fun _ => refl_of FpFrame s.cpu hp, fun h => nomatch h⟩
  | [], some _, s, hp => ⟨refl_of FpMove s.cpu hp, fun _ => refl_of FpFrame s.cpu hp, fun h => nomatch h⟩
  | _ :: ops, some _, s, hp => runOps_fp ops _ s hp
  | op :: ops, none, s, hp => by
    have hop := exec_dirtied s op hp
    obtain ⟨hd, hsame, hfs⟩ := runOps_fp ops (s.target op) (s.exec op) hop.priv
    have hmove : FpMove s.cpu (runOps none (op :: ops) s).2.cpu :=
      trans_of FpMove (fun _ => hop) (fun _ => hd)
    refine ⟨hmove hp, fun hcalls => ?_, fun hcalls => ?_⟩
    · obtain ⟨hne, hrest⟩ := Bool.or_eq_false_iff.1 hcalls
      have hframe : FpFrame s.cpu (runOps none (op :: ops) s).2.cpu :=
        trans_of FpFrame (exec_fpFrame s (by simpa using hne)) (fun _ => hsame hrest)
      exact hframe hp
    · rcases Bool.or_eq_true_iff.1 hcalls with heq | hrest
      · have hfp := exec_fpExec s hp
        rw [← eq_of_beq heq] at hfp
        exact hd.fs hfp.2
      · exact hfs hrest

omit [HostFp] in
theorem lookupBlock_fpFrame (j : JitState) (c : Cpu) : FpFrame c (lookupBlock j c).2 := by
  unfold lookupBlock
  dsimp only
  split
  · refine trans_of FpFrame (compileLoop_leads fpFrame_rules.load j.disabled_ops (maxInsns j) (.start c.pc) c) ?_
    exact fpFrame_of rfl rfl rfl fun _ _ => rfl
  · exact refl_of FpFrame c

theorem jitExec_idle {c : Cpu} (h : ranBlock c = none) (undef : U64) : FpFrame c (jitExec undef c).2 := by
  unfold ranBlock at h
  unfold jitExec
  cases hj : c.jit with
  | none => exact refl_of FpFrame c
  | some j =>
    rw [hj] at h
    dsimp only at h ⊢
    split at h
    next hen =>
      rw [if_pos hen]
      exact refl_of FpFrame c
    next hen =>
      rw [if_neg hen, Option.map_eq_none_iff.1 h]
      exact lookupBlock_fpFrame j c

theorem jitExec_ran {c d : Cpu} {code : List SljitOp} (h : ranBlock c = some (code, d)) (undef : U64) :
    FpFrame c d ∧ FpFrame (runOps none code (blockStart undef d)).2.cpu (jitExec undef c).2 := by
  unfold ranBlock at h
  unfold jitExec
  cases hj : c.jit with
  | none =>
    rw [hj] at h
    cases h
  | some j =>
    rw [hj] at h
    dsimp only at h ⊢
    split at h
    next => cases h
    next hen =>
      obtain ⟨code', hcode, heq⟩ := Option.map_eq_some_iff.1 h
      obtain ⟨rfl, rfl⟩ := Prod.mk.inj heq
      rw [if_neg hen, hcode]
      exact ⟨lookupBlock_fpFrame j c, fpFrame_of rfl rfl rfl fun _ _ => rfl⟩

end Blocks

/-! ## Runs -/

section Moves

variable [NetDevice] [HostFp]

/-- A change of the FPU registers or `fcsr` that the status registers do not show: over the move, or over one operation of
the block that it runs. -/
def Move.Untracked (c : Cpu) (m : Move) : Prop :=
  ¬ Shown c (m.run c) ∨
    ∃ undef code d, m = .jit undef ∧ ranBlock c = some (code, d) ∧ ¬ OpsAlong Shown none code (blockStart undef d)

/-- The step fetches an instruction that loses, or the block calls the FPU while FS is not Dirty. -/
def Move.Loses (c : Cpu) : Move → Prop
  | .step => StepLoses c
  | .jit undef => statusFs c.csr.mstatus ≠ 3 ∧
      ∃ code d, ranBlock c = some (code, d) ∧ callsFp none code (blockStart undef d) = true
  | .interrupts | .tick .. => False

omit [HostFp] in
theorem checkInterrupts_fpFrame (c : Cpu) : FpFrame c (checkInterrupts c).1 := by
  have hpoll : FpFrame c (pollNet (updateMip c)) := by
    unfold pollNet
    split <;> exact fpFrame_of rfl rfl rfl fun _ _ => rfl
  unfold checkInterrupts
  dsimp only
  split
  next cause _ =>
    refine trans_of FpFrame (trans_of FpFrame hpoll (trap_fpFrame _ cause 0)) ?_
    exact fpFrame_of rfl rfl rfl fun _ _ => rfl
  · exact hpoll

theorem invMove_block (ops : List SljitOp) : BlockRules InvMove ops where
  pc _ _ := FpFrame.inv (fpFrame_of rfl rfl rfl fun _ _ => rfl)
  write _ _ _ _ _ _ := FpFrame.inv (fpFrame_of rfl rfl rfl fun _ _ => rfl)
  load := invMove_rules.load
  store := invMove_rules.store
  fpExec _ insn c := (fpMove_rv64FpExec insn c).inv

theorem Move.run_inv (c : Cpu) (m : Move) : InvMove c (m.run c) := by
  cases m with
  | step => exact rv64Step_inv c
  | jit undef =>
    exact invMove_rules.jitExec (fun _ _ => FpFrame.inv (fpFrame_of rfl rfl rfl fun _ _ => rfl)) invMove_block
      (fun _ _ => FpFrame.inv (fpFrame_of rfl rfl rfl fun _ _ => rfl)) undef c
  | interrupts => exact (checkInterrupts_fpFrame c).inv
  | tick => exact FpFrame.inv (fpFrame_of rfl rfl rfl fun _ _ => rfl)

/-- **A block keeps the bookkeeping exactly when it does not call the FPU while FS is not Dirty.** -/
theorem jit_bookkept {c : Cpu} (hi : FpInv c) (hsd : SdExact c) (undef : U64) :
    (SdExact ((Move.jit undef).run c) ∧ ¬ (Move.jit undef).Untracked c) ↔ ¬ (Move.jit undef).Loses c := by
  cases hran : ranBlock c with
  | none =>
    have h := jitExec_idle hran undef hi.priv
    have hshown : Shown c ((Move.jit undef).run c) := h.shown
    have hexact : SdExact ((Move.jit undef).run c) := h.exact.2 hsd
    simp [Move.Untracked, Move.Loses, hran, hshown, hexact]
  | some r =>
    obtain ⟨code, d⟩ := r
    obtain ⟨hd, hend⟩ := jitExec_ran hran undef
    have hpd := hd hi.priv
    obtain ⟨hdirtied, hsame, hfs⟩ := runOps_fp code none (blockStart undef d) hpd.priv
    have hops := opsAlong_shown code none (blockStart undef d) hpd.priv
    have hlast := hend hdirtied.priv
    have hbook : Bookkept c ((Move.jit undef).run c) ↔
        Bookkept d (runOps none code (blockStart undef d)).2.cpu := by
      rw [hpd.bookkept_left]
      exact hlast.bookkept_right
    have huntracked : ¬ (Move.jit undef).Untracked c ↔ Shown c ((Move.jit undef).run c) := by
      simp [Move.Untracked, hran, hops]
    have hloses : (Move.jit undef).Loses c ↔
        statusFs c.csr.mstatus ≠ 3 ∧ callsFp none code (blockStart undef d) = true := by
      simp [Move.Loses, hran]
    rw [huntracked, hloses]
    refine hbook.trans ?_
    cases hcalls : callsFp none code (blockStart undef d) with
    | false => exact ⟨fun _ h => (nomatch h.2), fun _ => (hsame hcalls).bookkept (hpd.exact.2 hsd)⟩
    | true =>
      have hshown : Shown d (runOps none code (blockStart undef d)).2.cpu := fun _ => (readsDirty_iff _).2 (hfs hcalls)
      unfold Bookkept
      rw [FpDirtied.exact (c := d) hdirtied (hpd.exact.2 hsd) (hfs hcalls), hpd.status.fs]
      simp [hshown]

/-- **A move keeps the bookkeeping exactly when it does not lose.** -/
theorem Move.bookkept_iff {c : Cpu} (hi : FpInv c) (hsd : SdExact c) (m : Move) :
    (SdExact (m.run c) ∧ ¬ m.Untracked c) ↔ ¬ m.Loses c := by
  cases m with
  | jit undef => exact jit_bookkept hi hsd undef
  | step =>
    have huntracked : ¬ Move.step.Untracked c ↔ Shown c (rv64Step c) := by simp [Move.Untracked, Move.run]
    rw [huntracked]
    exact rv64Step_bookkept hi hsd
  | interrupts =>
    have h := checkInterrupts_fpFrame c hi.priv
    simpa [Move.Untracked, Move.Loses, Move.run] using (⟨h.exact.2 hsd, h.shown⟩ : _ ∧ _)
  | tick mtime cycle halted pendingIrq debugHalt =>
    have h : FpSame c (c.tick mtime cycle halted pendingIrq debugHalt) := ⟨hi.priv, rfl, rfl, fun _ _ => rfl⟩
    simpa [Move.Untracked, Move.Loses, Move.run] using (⟨h.exact.2 hsd, h.shown⟩ : _ ∧ _)

/-- **In a run from reset, every change of the FPU registers is shown by FS and SD sums FS up in every state, exactly when no
move executes an FPU instruction while FS is not Dirty, writes a status register with another SD, or changes `fcsr` while
FS is not Dirty.** -/
theorem fpTracked_iff (ram : Mem) (ramSize : U64) (ms : List Move) :
    (Runs.Along Move.run SdExact (rv64Init ram ramSize) ms ∧ Runs.Avoids Move.run Move.Untracked (rv64Init ram ramSize) ms) ↔
      Runs.Avoids Move.run Move.Loses (rv64Init ram ramSize) ms := by
  have hinit : FpInv (rv64Init ram ramSize) := ⟨show privM.toNat < 4 by decide, show (0 : U32) &&& 0xFF = 0 by decide⟩
  have hsd : SdExact (rv64Init ram ramSize) := by
    have hstatus : (rv64Init ram ramSize).csr.mstatus = 2 <<< 32 ||| 2 <<< 34 ||| 1 <<< 13 := rfl
    rw [sdExact_iff, hstatus]
    decide
  exact Runs.along_and_avoids_iff (fun c m hi => m.run_inv c hi) (fun c m hi hsd => m.bookkept_iff hi hsd) hinit hsd ms

end Moves

/-! ## Two instructions -/

section Programs

local instance fpDirtyNet : NetDevice := NetDevice.silent
local instance fpDirtyFp : HostFp := HostFp.zero

/-- CSRRWI x0, fcsr, 1; FMV.W.X f0, x0. -/
def fpRam : Mem := programAt [0x0030D073, 0xF0000053] 0 fun _ => 0

/-- The write of `fcsr` leaves FS at Initial, and the move leaves SD clear. -/
theorem not_fpTracked_move :
    ¬ Runs.Avoids Move.run Move.Untracked (rv64Init fpRam 0x80000000) [.step] ∧
      ¬ Runs.Along Move.run SdExact (rv64Init fpRam 0x80000000) [.step, .step] := by
  constructor
  · intro h
    refine h [] .step List.prefix_rfl (.inl fun hshown => ?_)
    have hdirty := hshown (.inr (by decide +kernel))
    rw [readsDirty_iff] at hdirty
    revert hdirty
    decide +kernel
  · intro h
    have hsd := h [.step, .step] List.prefix_rfl
    rw [sdExact_iff] at hsd
    revert hsd
    decide +kernel

end Programs

end PgLinux
