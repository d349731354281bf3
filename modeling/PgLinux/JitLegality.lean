import PgLinux.BlockExits
import PgLinux.FpStatus
import PgLinux.TrapReturn
/-!
# JitLegality — the encodings a block takes

The decoder of `jit_compile_block` and the `switch` of `rv64_step` tell legal words apart by tests of their own.  A block
never completes a word the interpreter finds illegal, but for three kinds that the decoder takes for a load, a store or a
shift: it reads the size of an access from two bits of `funct3`, and `funct7` only to tell SUB from ADD.
-/
namespace PgLinux

open Prog

/-! ## The law -/

/-- The word is illegal to the interpreter, and the decoder takes it. -/
def AcceptsIllegal (word : U32) : Prop :=
  opcode word = 0x03 ∧ funct3 word = 7 ∨ opcode word = 0x23 ∧ 4 ≤ funct3 word ∨
    opcode word = 0x3B ∧ funct7 word = 0x01 ∧ funct3 word = 1

instance (word : U32) : Decidable (AcceptsIllegal word) := by unfold AcceptsIllegal; infer_instance

section Law

variable [NetDevice] [HostFp]

/-- `rv64_step` raises an illegal-instruction trap for the word it has fetched. -/
def RaisesIllegal (word : U32) (c : Cpu) : Prop :=
  ∃ d, afterFetch c.pc word c = .error () (trap d excIllegalInsn (word.setWidth 64))

/-- The step raises an illegal-instruction trap. -/
def StepIllegal (c : Cpu) : Prop := ∃ d tval, stepBody c = .error () (trap d excIllegalInsn tval)

/-- A run of the block from `c` gets to its instruction `i` in the state `s`. -/
def JitBlock.Gets (b : JitBlock) (undef : U64) (c : Cpu) (i : JitSrc) (s : JState) : Prop :=
  ∃ before after, b.src = before ++ i :: after ∧
    runOps none ([.mov .mov (.reg .S1) (.imm 0)] ++ before.flatMap JitSrc.single) (blockStart undef c) = (none, s)

/-- The run that got to `i` in the state `s` ends in `t`: at `i`, which is not counted and is left to the interpreter. -/
structure LeftTo (i : JitSrc) (s t : JState) : Prop where
  count : t.regs .R0 = s.regs .S1
  pc : t.cpu.pc = i.va
  illegal : RaisesIllegal i.word t.cpu

/-- No block completes the word in a state in which it is illegal. -/
def NeverCompleted (word : U32) : Prop :=
  ∀ (pc undef : U64) (b : JitBlock) (code : List SljitOp) (c : Cpu) (i : JitSrc) (s : JState), b.Made pc →
    b.host_code = some code → b.Gets undef c i s → i.word = word → RaisesIllegal word { s.cpu with pc := i.va } →
    LeftTo i s (runBlock undef code c)

end Law

/-! ## Illegal words of the interpreter -/

theorem trap_ne_illegal {c d : Cpu} {cause tval tval' : U64} (h : cause ≠ excIllegalInsn) :
    trap c cause tval ≠ trap d excIllegalInsn tval' := fun he =>
  h (trap_cause_inj (congrArg Cpu.priv he) (congrArg Cpu.csr he))

theorem loadKind_none {f3 : BitVec 3} : loadKind f3 = none ↔ f3 = 7 := by
  rcases funct3_cases f3 with rfl | rfl | rfl | rfl | rfl | rfl | rfl | rfl <;> simp [loadKind]

theorem storeSize_none {f3 : BitVec 3} : storeSize f3 = none ↔ 4 ≤ f3 := by
  revert f3
  decide

theorem branchTaken_none {f3 : BitVec 3} {a b : U64} : branchTaken f3 a b = none ↔ f3 = 2 ∨ f3 = 3 := by
  rcases funct3_cases f3 with rfl | rfl | rfl | rfl | rfl | rfl | rfl | rfl <;> simp [branchTaken]

theorem emitOp32_supported {word : U32} (h : (emitOp32 word).supported = true) :
    funct3 word = 0 ∨ funct3 word = 1 ∨ funct3 word = 5 := by
  unfold emitOp32 at h
  rcases funct3_cases (funct3 word) with hf | hf | hf | hf | hf | hf | hf | hf <;> rw [hf] at h
  case inl => exact .inl hf
  case inr.inl => exact .inr (.inl hf)
  case inr.inr.inr.inr.inr.inl => exact .inr (.inr hf)
  all_goals cases h

theorem emitOpImm32_supported {word : U32} (h : (emitOpImm32 word).supported = true) :
    funct3 word = 0 ∨ funct3 word = 1 ∨ funct3 word = 5 := by
  unfold emitOpImm32 at h
  rcases funct3_cases (funct3 word) with hf | hf | hf | hf | hf | hf | hf | hf <;> rw [hf] at h
  case inl => exact .inl hf
  case inr.inl => exact .inr (.inl hf)
  case inr.inr.inr.inr.inr.inl => exact .inr (.inr hf)
  all_goals cases h

/-- **Of the integer words that the decoder takes, only the shift of OP-32 with MULW's `funct7` has no value.** -/
theorem intValue_none {word : U32} {pc : U64} (h : IntOpcode word) (hsup : (emitInsn word pc false).supported = true)
    (x : BitVec 5 → U64) : intValue word pc x = none ↔ opcode word = 0x3B ∧ funct7 word = 0x01 ∧ funct3 word = 1 := by
  have hopcode : opcode word = 0x3B ↔ (opcode word).toNat = 0x3B := BitVec.toNat_inj.symm
  rw [hopcode]
  unfold emitInsn at hsup
  unfold intValue
  rcases h.cases with hop | hop | hop | hop | hop | hop <;> simp only [hop] at hsup ⊢
  case inr.inr.inl =>
    unfold aluOp32
    by_cases hm : funct7 word = 0x01
    · rcases emitOp32_supported hsup with hf | hf | hf <;> simp [hm, hf, mulDiv32]
    · rw [if_neg hm]
      rcases emitOp32_supported hsup with hf | hf | hf <;> simp [hf]
      exact hm
  case inr.inr.inr.inl =>
    unfold aluOpImm32
    rcases emitOpImm32_supported hsup with hf | hf | hf <;> simp [hf]
  all_goals simp

section Interpreter

variable [NetDevice]

/-- A load stops with a page fault, unless its encoding is illegal. -/
theorem execLoad_illegal {word : U32} {nextPc tval : U64} {c d : Cpu}
    (h : execLoad word nextPc c = .error () (trap d excIllegalInsn tval)) : loadKind (funct3 word) = none := by
  by_contra hkind
  obtain ⟨⟨size, extend⟩, hkind⟩ := Option.ne_none_iff_exists'.1 hkind
  unfold execLoad at h
  rw [get_bind_apply, hkind] at h
  rcases bind_eq_error.1 h with h | ⟨v, e, -, h⟩
  · obtain ⟨exc, e, he, heq⟩ := orTrap_eq_error.1 h
    have hsize := (loadKind_size hkind).2
    obtain ⟨hexc, -⟩ := @MemOp.Faults.failing _ (.load _ size .read) _ _ _ (by show size ≤ 4096; omega) he
    exact trap_ne_illegal (by rw [hexc]; show faultCode .read ≠ _; decide) heq.symm
  · cases h

theorem execStore_illegal {word : U32} {nextPc tval : U64} {c d : Cpu}
    (h : execStore word nextPc c = .error () (trap d excIllegalInsn tval)) : storeSize (funct3 word) = none := by
  by_contra hkind
  obtain ⟨size, hkind⟩ := Option.ne_none_iff_exists'.1 hkind
  unfold execStore at h
  rw [get_bind_apply, hkind] at h
  rcases bind_eq_error.1 h with h | ⟨v, e, -, h⟩
  · obtain ⟨exc, e, he, heq⟩ := orTrap_eq_error.1 h
    have hsize := (storeSize_size hkind).2
    obtain ⟨hexc, -⟩ := @MemOp.Faults.failing _ (.store _ size _) _ _ _ (by show size ≤ 4096; omega) he
    exact trap_ne_illegal (by rw [hexc]; show faultCode .write ≠ _; decide) heq.symm
  · cases h

variable [HostFp]

theorem raisesIllegal_iff {word : U32} (hlong : isCompressed word = false) {c : Cpu} : RaisesIllegal word c ↔
    ∃ d, execInsn word c.pc (c.pc + 4) c = .error () (trap d excIllegalInsn (word.setWidth 64)) := by
  have hexpand : expandInsn word = pure word := by
    unfold expandInsn
    rw [hlong]
    rfl
  have hbytes : insnBytes (isCompressed word) = 4 := by
    rw [hlong]
    rfl
  have hstep := afterFetch_insn hexpand c.pc c
  rw [hbytes] at hstep
  unfold RaisesIllegal
  cases hexec : execInsn word c.pc (c.pc + 4) c with
  | ok nextPc e =>
    rw [hexec] at hstep
    dsimp only at hstep
    rw [hstep]
    simp
  | error u e =>
    rw [hexec] at hstep
    dsimp only at hstep
    rw [hstep]
    simp

theorem execFp_illegal {word : U32} {nextPc tval : U64} {c d : Cpu}
    (h : execFp word nextPc c = .error () (trap d excIllegalInsn tval)) :
    rv64FpExec word c = (.illegal, markFsDirty c) := by
  unfold execFp at h
  cases hr : rv64FpExec word c with
  | mk r e =>
    rw [hr] at h
    rcases rv64FpExec_cases hr with rfl | ⟨rfl, rfl⟩ | ⟨rfl, op, exc, m, hop, hfault, rfl⟩
    · cases h
    · rfl
    · injection h with _ heq
      obtain ⟨hexc, -⟩ := hfault.failing (Nat.le_trans hop.size.2 (by decide))
      refine absurd heq (trap_ne_illegal ?_)
      rw [hexc]
      cases op.access <;> decide

/-- **A word that the decoder takes and the interpreter finds illegal is floating point**, or of the three kinds. -/
theorem fp_of_illegal {word : U32} {c : Cpu} (hlong : isCompressed word = false)
    (hsup : (emitInsn word c.pc false).supported = true) (hlegal : ¬ AcceptsIllegal word) (h : RaisesIllegal word c) :
    IsFp word ∧ rv64FpExec word c = (.illegal, markFsDirty c) := by
  obtain ⟨d, hd⟩ := (raisesIllegal_iff hlong).1 h
  by_cases hint : IntOpcode word
  · rw [execInsn_int hint] at hd
    have hvalue : intValue word c.pc c.x ≠ none := fun hnone =>
      hlegal (.inr (.inr ((intValue_none hint hsup c.x).1 hnone)))
    obtain ⟨v, hv⟩ := Option.ne_none_iff_exists'.1 hvalue
    rw [hv] at hd
    cases hd
  by_cases hfp : IsFp word
  · rw [execInsn_fpOpcode hfp] at hd
    exact ⟨hfp, execFp_illegal hd⟩
  exfalso
  unfold emitInsn at hsup
  unfold execInsn at hd
  rw [get_bind_apply] at hd
  split at hsup
  case h_7 hop => simp only [hop] at hd; cases hd
  case h_8 hop => simp only [hop] at hd; cases hd
  case h_9 hop =>
    simp only [hop] at hd
    have hcond : branchTaken (funct3 word) (c.x (rs1 word)) (c.x (rs2 word)) ≠ none := by
      rw [Ne, branchTaken_none]
      unfold emitBranch branchCond at hsup
      rintro (hf | hf) <;> rw [hf] at hsup <;> cases hsup
    obtain ⟨taken, htaken⟩ := Option.ne_none_iff_exists'.1 hcond
    rw [htaken] at hd
    cases hd
  case h_10 hop =>
    simp only [hop] at hd
    exact hlegal (.inl ⟨BitVec.eq_of_toNat_eq hop, loadKind_none.1 (execLoad_illegal hd)⟩)
  case h_11 hop =>
    simp only [hop] at hd
    exact hlegal (.inr (.inl ⟨BitVec.eq_of_toNat_eq hop, storeSize_none.1 (execStore_illegal hd)⟩))
  case h_19 => cases hsup
  all_goals
    rename_i hop
    first
      | apply hint
        unfold IntOpcode
        rw [hop]
        decide
      | apply hfp
        unfold IsFp
        rw [hop]
        decide

end Interpreter

/-! ## Blocks that get to an instruction -/

/-- **A block lays the operations of an instruction after those of the instructions before it.** -/
theorem Laid.split {i : JitSrc} {after : List JitSrc} : ∀ {before : List JitSrc} {jumps : Nat} {pc : U64} {ops : List SljitOp},
    Laid jumps pc (before ++ i :: after) ops → i.emitted.supported = true ∧
      ∃ rest, ops = before.flatMap JitSrc.single ++ (i.emitted.ops ++ countOp :: rest) ∧ .label .epilogue ∉ rest
  | [], _, _, _, h => by
    cases h with
    | jump _ hs hend => exact ⟨hs, [], by simp [JitSrc.single, hend], by simp⟩
    | limit _ hs => exact ⟨hs, [], by simp, by simp⟩
    | @next _ _ hs hend _ _ ops h =>
      exact ⟨hs, .mov .mov .pc (.imm i.next) :: ops, by simp [JitSrc.single, hend], by simp [h.not_label]⟩
  | [_], _, _, _, h => by
    cases h with
    | next _ _ _ _ h =>
      obtain ⟨hs, rest, rfl, hlabel⟩ := @Laid.split _ _ [] _ _ _ h
      exact ⟨hs, rest, by simp, hlabel⟩
  | _ :: k :: before, _, _, _, h => by
    cases h with
    | next _ _ _ _ h =>
      obtain ⟨hs, rest, rfl, hlabel⟩ := @Laid.split _ _ (k :: before) _ _ _ h
      exact ⟨hs, rest, by simp, hlabel⟩

theorem JitSrc.insn_long {i : JitSrc} (h : isCompressed i.word = false) : i.insn = i.word := by
  unfold JitSrc.insn
  rw [h]
  rfl

section Forward

variable [NetDevice] [HostFp]

/-- **A call that fails ends the run at its instruction.** -/
theorem JitBlock.Made.left {pc undef : U64} {b : JitBlock} {code : List SljitOp} {c : Cpu} {i : JitSrc} {s : JState}
    {e : CallFailure} (hmade : b.Made pc) (hcode : b.host_code = some code) (hgets : b.Gets undef c i s)
    (hfail : i.emitted.supported = true → i.failure s.cpu = some e) :
    (runBlock undef code c).regs .R0 = s.regs .S1 ∧ (runBlock undef code c).cpu = e.cpu := by
  obtain ⟨before, after, hsrc, hrun⟩ := hgets
  obtain ⟨-, ⟨-, hnone⟩ | ⟨ops, hlaid, hsome⟩⟩ := hmade.code
  · rw [hnone] at hcode
    cases hcode
  rw [hsome] at hcode
  cases hcode
  rw [hsrc] at hlaid
  obtain ⟨hsup, rest, rfl, hlabel⟩ := hlaid.split
  obtain ⟨t, ht, hcpu⟩ := emitInsn_failed hsup (hfail hsup)
  have hcount := JitSrc.count_of_run ht
  have hskip : SljitOp.label .epilogue ∉ countOp :: rest := by simpa [countOp] using hlabel
  have hend : runBlock undef ([.mov .mov (.reg .S1) (.imm 0)] ++ (before.flatMap JitSrc.single ++
      (i.emitted.ops ++ countOp :: rest)) ++ [.label .epilogue, .mov .mov r0 (.reg .S1)]) c =
        t.exec (.mov .mov r0 (.reg .S1)) := by
    show (runOps none _ (blockStart undef c)).2 = _
    rw [← List.append_assoc [_], runOps_append, runOps_append, hrun]
    dsimp only
    rw [runOps_append, ht]
    dsimp only
    rw [runOps_skip hskip]
    rfl
  rw [hend]
  exact ⟨hcount, hcpu⟩

theorem JitSrc.failure_fp {i : JitSrc} {c : Cpu} (hlong : isCompressed i.word = false) (h : IsFp i.word)
    (hill : rv64FpExec i.word { c with pc := i.va } = (.illegal, markFsDirty { c with pc := i.va })) :
    i.failure c = some ⟨false, markFsDirty { c with pc := i.va }⟩ := by
  unfold JitSrc.failure
  rw [JitSrc.insn_long hlong]
  simp only [IsFp, List.mem_cons, List.not_mem_nil, or_false] at h
  rcases h with h | h | h | h | h | h | h <;> simp only [h, hill] <;> rfl

/-- **Outside the three kinds, a word that is illegal ends the block.** -/
theorem neverCompleted {word : U32} (hlong : isCompressed word = false) (h : ¬ AcceptsIllegal word) : NeverCompleted word := by
  intro pc undef b code c i s hmade hcode hgets hword hill
  subst hword
  have hillegal (hsup : i.emitted.supported = true) :
      IsFp i.word ∧ rv64FpExec i.word { s.cpu with pc := i.va } = (.illegal, markFsDirty { s.cpu with pc := i.va }) := by
    rw [JitSrc.emitted_insn hsup, JitSrc.insn_long hlong, hlong] at hsup
    exact fp_of_illegal hlong hsup h hill
  have hsup : i.emitted.supported = true := by
    obtain ⟨before, after, hsrc, -⟩ := hgets
    obtain ⟨-, ⟨hnil, -⟩ | ⟨ops, hlaid, -⟩⟩ := hmade.code
    · rw [hnil] at hsrc
      simp at hsrc
    · rw [hsrc] at hlaid
      exact hlaid.split.1
  obtain ⟨hfp, hexec⟩ := hillegal hsup
  obtain ⟨hcount, hcpu⟩ := hmade.left hcode hgets fun _ => JitSrc.failure_fp hlong hfp hexec
  refine ⟨hcount, by rw [hcpu]; rfl, ?_⟩
  rw [hcpu, raisesIllegal_iff hlong]
  refine ⟨markFsDirty { s.cpu with pc := i.va }, ?_⟩
  rw [execInsn_fpOpcode hfp]
  unfold execFp
  dsimp only
  rw [rv64FpExec_mark, hexec]
  rfl

end Forward

/-! ## Blocks that complete an illegal word -/

section Machine

variable [NetDevice] {c : Cpu} {va val : U64} {access : AccessType}

theorem loadBytes_machine : ∀ {n i : Nat} {result : U64} {c : Cpu}, c.priv = privM →
    ∃ v d, loadBytes va access n i result c = .ok v d
  | 0, _, result, c, _ => ⟨result, c, rfl⟩
  | n + 1, i, result, c, h => by
    unfold loadBytes
    rw [bind_of_ok (rv64Translate_machine h _ access)]
    exact loadBytes_machine (by exact h)

theorem storeBytes_machine : ∀ {n i : Nat} {c : Cpu}, c.priv = privM → ∃ d, storeBytes va val n i c = .ok () d
  | 0, _, c, _ => ⟨c, rfl⟩
  | n + 1, i, c, h => by
    unfold storeBytes
    rw [bind_of_ok (rv64Translate_machine h _ .write)]
    exact storeBytes_machine (by exact h)

/-- **No access of M-mode stops.** -/
theorem rv64CpuLoad_ok (h : c.priv = privM) (va : U64) (size : Nat) (access : AccessType) :
    ∃ v d, rv64CpuLoad va size access c = .ok v d := by
  cases hfast : loadFast c va size access with
  | some p => exact ⟨_, _, rv64CpuLoad_hit hfast⟩
  | none =>
    rw [rv64CpuLoad_miss hfast]
    split
    · exact loadBytes_machine h
    · rw [bind_of_ok (rv64Translate_machine h va access)]
      exact ⟨_, _, rfl⟩

theorem storeAt_ok (h : c.priv = privM) (va : U64) (size : Nat) (val : U64) : ∃ d, storeAt va size val c = .ok () d := by
  cases hfast : storeFast c va size with
  | some p => exact ⟨_, storeAt_hit hfast⟩
  | none =>
    rw [storeAt_miss hfast]
    split
    · exact storeBytes_machine h
    · rw [bind_of_ok (rv64Translate_machine h va .write)]
      exact ⟨_, rfl⟩

theorem cpuStore_ok (h : c.priv = privM) (va : U64) (size : Nat) (val : U64) : ∃ d, cpuStore va size val c = .ok () d := by
  have hlogged : (logStore va size val c).priv = privM := by
    unfold logStore
    split <;> exact h
  exact storeAt_ok hlogged va size val

end Machine

/-- The operation does not jump. -/
def SljitOp.straight : SljitOp → Bool
  | .cmp .. | .jump _ => false
  | _ => true

theorem emitLoadExt_straight (insn : U32) : (emitLoadExt insn).all SljitOp.straight = true := by
  unfold emitLoadExt
  split <;> rfl

theorem emitStoreGuest_straight (grs : BitVec 5) (src : SReg) : (emitStoreGuest grs src).all SljitOp.straight = true := by
  unfold emitStoreGuest
  split <;> rfl

theorem AcceptsIllegal.long {word : U32} (h : AcceptsIllegal word) : isCompressed word = false := by
  apply isCompressed_of_opcode
  rcases h with ⟨hop, -⟩ | ⟨hop, -⟩ | ⟨hop, -⟩ <;> rw [hop] <;> rfl

section Falls

variable [NetDevice] [HostFp] {s : JState} {a b : List SljitOp}

/-- The operations fall through. -/
def Falls (ops : List SljitOp) (s : JState) : Prop := (runOps none ops s).1 = none

theorem Falls.append (ha : Falls a s) (hb : ∀ t, Falls b t) : Falls (a ++ b) s := by
  unfold Falls at ha ⊢
  rw [runOps_append, ha]
  exact hb _

theorem falls_straight : ∀ {ops : List SljitOp}, ops.all SljitOp.straight = true → ∀ s : JState, Falls ops s
  | [], _, _ => rfl
  | op :: ops, h, s => by
    obtain ⟨hop, hops⟩ := Bool.and_eq_true_iff.1 h
    have htarget : s.target op = none := by
      cases op <;> first | rfl | cases hop
    show (runOps (s.target op) ops (s.exec op)).1 = none
    rw [htarget]
    exact falls_straight hops _

/-- A call that answers 0 goes on. -/
theorem falls_call {f : ICall} {ops : List SljitOp} (h : (s.call f).regs .R0 = 0) (hops : ops.all SljitOp.straight = true) :
    Falls (.icall f :: .cmp .notEqual r0 (.imm 0) .epilogue :: ops) s := by
  have htarget : (s.call f).target (.cmp .notEqual r0 (.imm 0) .epilogue) = none := by
    show (if ((s.call f).regs .R0 != 0) = true then some Label.epilogue else none) = none
    rw [h]
    rfl
  show (runOps ((s.call f).target (.cmp .notEqual r0 (.imm 0) .epilogue)) ops (s.call f)).1 = none
  rw [htarget]
  exact falls_straight hops _

theorem falls_emitLoad (h : s.cpu.priv = privM) (insn : U32) (pc : U64) : Falls (emitLoad insn pc).ops s := by
  obtain ⟨t, hrun, hcpu, -⟩ := runOps_memoryOps pc (rs1 insn) (jitImmI insn) (jitSize insn) s
  unfold Falls
  rw [emitLoad_ops, runOps_append, hrun]
  have hpriv : (t.exec (.localBase .R3)).cpu.priv = privM := by
    show t.cpu.priv = privM
    rw [hcpu]
    exact h
  show Falls _ (t.exec (.localBase .R3))
  generalize t.exec (.localBase .R3) = u at hpriv
  refine falls_call ?_ ?_
  · obtain ⟨v, d, hok⟩ := rv64CpuLoad_ok hpriv (u.regs .R1) (u.regs .R2).toNat .read
    unfold JState.call
    dsimp only
    rw [hok]
    rfl
  · rw [List.all_append, List.all_append, emitLoadExt_straight, emitStoreGuest_straight]
    rfl

theorem falls_emitStore (h : s.cpu.priv = privM) (insn : U32) (pc : U64) : Falls (emitStore insn pc).ops s := by
  obtain ⟨u, hrun, hcpu, -⟩ := runOps_emitStore insn pc s
  have hpriv : u.cpu.priv = privM := by
    rw [hcpu]
    exact h
  unfold Falls
  rw [hrun]
  refine falls_call ?_ rfl
  obtain ⟨d, hok⟩ := cpuStore_ok hpriv (u.regs .R1) (u.regs .R2).toNat (u.regs .R3)
  unfold JState.call
  dsimp only
  rw [hok]
  rfl

/-- **The decoder takes a word of the three kinds**, and in M-mode its operations fall through. -/
theorem AcceptsIllegal.taken {word : U32} (h : AcceptsIllegal word) (pc : U64) : (emitInsn word pc false).supported = true ∧
    (emitInsn word pc false).block_ended = false ∧
      ∀ s : JState, s.cpu.priv = privM → Falls (emitInsn word pc false).ops s := by
  unfold emitInsn
  rcases h with ⟨hop, -⟩ | ⟨hop, -⟩ | ⟨hop, -, hf⟩ <;> rw [hop]
  · exact ⟨rfl, rfl, fun s hs => falls_emitLoad hs word pc⟩
  · exact ⟨rfl, rfl, fun s hs => falls_emitStore hs word pc⟩
  · show (emitOp32 word).supported = true ∧ (emitOp32 word).block_ended = false ∧ _
    unfold emitOp32
    rw [hf]
    refine ⟨rfl, rfl, fun s _ => falls_straight ?_ s⟩
    have hload (dst : SReg) (grs : BitVec 5) : (emitLoadGuest dst grs).straight = true := by
      unfold emitLoadGuest
      split <;> rfl
    show List.all (_ ++ _ ++ ([_] ++ emitStoreGuest _ _)) _ = true
    simp only [List.all_append, List.all_cons, List.all_nil, hload, emitStoreGuest_straight]
    rfl

theorem AcceptsIllegal.raises {word : U32} (h : AcceptsIllegal word) (c : Cpu) : RaisesIllegal word c := by
  rw [raisesIllegal_iff h.long]
  refine ⟨c, ?_⟩
  unfold execInsn
  rw [get_bind_apply]
  rcases h with ⟨hop, hf⟩ | ⟨hop, hf⟩ | ⟨hop, hm, hf⟩ <;> rw [hop]
  · show execLoad word _ c = _
    unfold execLoad
    rw [get_bind_apply, loadKind_none.2 hf]
    rfl
  · show execStore word _ c = _
    unfold execStore
    rw [get_bind_apply, storeSize_none.2 hf]
    rfl
  · rw [hm, hf]
    rfl

end Falls

section Complete

variable [NetDevice]

/-- Blocks of one instruction. -/
def JitState.short : JitState := { JitState.init with rt_max_block_insns := 1 }

/-- The block of one instruction at the start of RAM. -/
theorem compile_short {word : U32} {x : BitVec 5 → U64} (hsup : (emitWord 0 word ramBase).supported = true)
    (hend : (emitWord 0 word ramBase).block_ended = false) :
    (jitCompileBlock .short ramBase (cpuWith word x)).1.src = [⟨ramBase, word⟩] ∧
      (jitCompileBlock .short ramBase (cpuWith word x)).1.host_code = some ([.mov .mov (.reg .S1) (.imm 0)] ++
        (JitSrc.mk ramBase word).single ++ [.label .epilogue, .mov .mov r0 (.reg .S1)]) := by
  obtain ⟨v, hload, hword⟩ := cpuWith_fetch word x
  have hloop : compileLoop 0 1 (.start ramBase) (cpuWith word x) =
      (((Compile.start ramBase).take word (emitWord 0 word ramBase)).1, cpuWith word x) := by
    unfold compileLoop
    rw [show rv64CpuLoad (Compile.start ramBase).pc 4 .exec (cpuWith word x) = .ok v (cpuWith word x) from hload]
    dsimp only
    rw [hword, show emitWord 0 word (Compile.start ramBase).pc = emitWord 0 word ramBase from rfl, hsup, if_neg (by decide)]
    unfold compileLoop
    split <;> rfl
  have hops := take_ops (.start ramBase) word (emitWord 0 word ramBase)
  have hended := take_ended (.start ramBase) word (emitWord 0 word ramBase)
  have hgoes : ((Compile.start ramBase).take word (emitWord 0 word ramBase)).2 = false := by
    rw [hended, hend]
    exact Bool.and_false _
  rw [hgoes] at hops
  have hblock : (jitCompileBlock .short ramBase (cpuWith word x)).1 =
      ((Compile.start ramBase).take word (emitWord 0 word ramBase)).1.block ramBase := by
    show (compileLoop 0 1 (.start ramBase) (cpuWith word x)).1.block ramBase = _
    rw [hloop]
  rw [hblock]
  refine ⟨rfl, ?_⟩
  show (if false = true ∧ 0 + 1 = 0 then none else some ([.mov .mov (.reg .S1) (.imm 0)] ++
    ((Compile.start ramBase).take word (emitWord 0 word ramBase)).1.ops ++ [.label .epilogue, .mov .mov r0 (.reg .S1)])) = _
  rw [if_neg (by decide), hops]
  unfold JitSrc.single JitSrc.emitted
  rw [hend]
  rfl

variable [HostFp]

/-- **A block completes each word of the three kinds**, from reset. -/
theorem AcceptsIllegal.completed {word : U32} (h : AcceptsIllegal word) : ¬ NeverCompleted word := by
  intro hnever
  obtain ⟨hsup, hend, hfalls⟩ := h.taken ramBase
  have hemit : emitWord 0 word ramBase = emitInsn word ramBase false := by
    unfold emitWord
    rw [h.long]
    simp
  rw [← hemit] at hsup hend hfalls
  let c := cpuWith word fun _ => 0
  let i : JitSrc := ⟨ramBase, word⟩
  obtain ⟨hsrc, hcode⟩ := compile_short (x := fun _ => 0) hsup hend
  have hleft := hnever ramBase 0 _ _ c i (blockEntry 0 c) ⟨.short, c, rfl⟩ hcode ⟨[], [], hsrc, rfl⟩ rfl (h.raises _)
  have hrest : i.single = i.emitted.ops ++ [countOp, .mov .mov .pc (.imm i.next)] := by
    unfold JitSrc.single
    rw [show i.emitted.block_ended = false from hend]
    simp
  have hfall : Falls i.single (blockEntry 0 c) := by
    rw [hrest]
    exact Falls.append (hfalls _ rfl) (falls_straight rfl)
  cases hrun : runOps none i.single (blockEntry 0 c) with
  | mk mode t =>
    have hmode : mode = none := by
      unfold Falls at hfall
      rwa [hrun] at hfall
    subst hmode
    obtain ⟨-, -, hone, -⟩ := JitSrc.single_spec hrun
    have hend : runBlock 0 ([.mov .mov (.reg .S1) (.imm 0)] ++ i.single ++ [.label .epilogue, .mov .mov r0 (.reg .S1)]) c =
        t.exec (.mov .mov r0 (.reg .S1)) := by
      show (runOps none (i.single ++ [.label .epilogue, .mov .mov r0 (.reg .S1)]) (blockEntry 0 c)).2 = _
      rw [runOps_append, hrun]
      rfl
    have hzero : t.regs .S1 = 0 := by
      have hcount := hleft.count
      rwa [hend] at hcount
    have hcontra : (0 : U64) = 0 + 1 := hzero.symm.trans hone
    exact absurd hcontra (by decide)

/-- **A word that the interpreter finds illegal is never completed by a block, exactly outside the three kinds**: loads with
`funct3` 7, stores with `funct3` from 4 on, and the shift of OP-32 with `funct7` 1. -/
theorem neverCompleted_iff (word : U32) (h : isCompressed word = false) : NeverCompleted word ↔ ¬ AcceptsIllegal word :=
  ⟨fun hnever hacc => hacc.completed hnever, neverCompleted h⟩

end Complete

section Instances

local instance legalityNet : NetDevice := NetDevice.silent
local instance legalityFp : HostFp := HostFp.zero

/-- A floating-point word without a meaning. -/
theorem neverCompleted_fp : isCompressed 0xFE000053 = false ∧ NeverCompleted 0xFE000053 :=
  ⟨by decide, (neverCompleted_iff 0xFE000053 (by decide)).2 (by decide)⟩

/-- A load with `funct3` 7. -/
theorem not_neverCompleted_load : isCompressed 0x00007083 = false ∧ ¬ NeverCompleted 0x00007083 := by
  have hload : AcceptsIllegal 0x00007083 := by decide
  exact ⟨by decide, hload.completed⟩

end Instances

end PgLinux
