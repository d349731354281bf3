import PgLinux.BlockCode
/-!
# EpilogueJumps — the jumps that a block keeps for its epilogue (`rv64_sljit.c`)

`jit_compile_block` has 64 slots for the jumps that it aims at the epilogue once that is laid.  A load, a store and a
floating-point instruction take one each, and the instruction that takes the 61st ends the block, whatever length
`vm_jit_block_size` has set.
-/
namespace PgLinux

/-! ## The array -/

/-- The slots of `epilogue_jumps`. -/
def epilogueSlots : Nat := 64

/-- A jump that is recorded for the epilogue. -/
def SljitOp.leaves : SljitOp → Bool
  | .cmp _ _ _ .epilogue | .jump .epilogue => true
  | _ => false

/-- The jumps recorded so far are those among the operations, and there is room for one more before the block ends. -/
structure Compile.JumpsFit (k : Compile) : Prop where
  recorded : k.ops.countP SljitOp.leaves = k.num_epilogue_jumps
  room : k.num_epilogue_jumps ≤ 60

@[simp] theorem leaves_mov (t : MovType) (dst src : Operand) : (SljitOp.mov t dst src).leaves = false := rfl
@[simp] theorem leaves_op2 (op : Op2) (dst a b : Operand) : (SljitOp.op2 op dst a b).leaves = false := rfl
@[simp] theorem leaves_flags (dst : SReg) (c : Cond) : (SljitOp.flags dst c).leaves = false := rfl
@[simp] theorem leaves_localBase (dst : SReg) : (SljitOp.localBase dst).leaves = false := rfl
@[simp] theorem leaves_icall (f : ICall) : (SljitOp.icall f).leaves = false := rfl
@[simp] theorem leaves_label (l : Label) : (SljitOp.label l).leaves = false := rfl
@[simp] theorem leaves_cmp (c : Cond) (a b : Operand) (l : Label) : (SljitOp.cmp c a b l).leaves = decide (l = .epilogue) := by
  cases l <;> rfl
@[simp] theorem leaves_jump (l : Label) : (SljitOp.jump l).leaves = decide (l = .epilogue) := by cases l <;> rfl

@[simp] theorem emitLoadGuest_leaves (dst : SReg) (r : BitVec 5) : (emitLoadGuest dst r).leaves = false := by
  unfold emitLoadGuest
  split <;> rfl

@[simp] theorem emitStoreGuest_leaves (r : BitVec 5) (src : SReg) :
    (emitStoreGuest r src).countP SljitOp.leaves = 0 := by
  unfold emitStoreGuest
  split <;> rfl

@[simp] theorem emitOpAlu_leaves (insn : U32) : (emitOpAlu insn).countP SljitOp.leaves = 0 := by
  unfold emitOpAlu
  split <;> rfl

@[simp] theorem emitOpImmAlu_leaves (insn : U32) : (emitOpImmAlu insn).countP SljitOp.leaves = 0 := by
  unfold emitOpImmAlu
  dsimp only
  split <;> rfl

@[simp] theorem emitLoadExt_leaves (insn : U32) : (emitLoadExt insn).countP SljitOp.leaves = 0 := by
  unfold emitLoadExt
  split <;> rfl

@[simp] theorem emitMemoryIcall_leaves (isStore : Bool) (size : U64) (rs1 : BitVec 5) (imm : U64) (rs2 : BitVec 5) :
    (emitMemoryIcall isStore size rs1 imm rs2).countP SljitOp.leaves = 1 := by
  have haddr : (if rs1 = 0 then [SljitOp.mov .mov r1 (.imm imm)]
      else [.mov .mov r1 (.x rs1), .op2 .add r1 r1 (.imm imm)]).countP SljitOp.leaves = 0 := by split <;> rfl
  have hvalue : (if rs2 = 0 then SljitOp.mov .mov r3 (.imm 0) else .mov .mov r3 (.x rs2)).leaves = false := by
    split <;> rfl
  unfold emitMemoryIcall
  rw [List.countP_append, List.countP_append, List.countP_append, List.countP_append, haddr]
  cases isStore with
  | false => rfl
  | true =>
    have hcall : [if rs2 = 0 then SljitOp.mov .mov r3 (.imm 0) else .mov .mov r3 (.x rs2), .icall .store].countP
        SljitOp.leaves = 0 := by rw [List.countP_cons, hvalue]; rfl
    rw [if_pos rfl, hcall]
    rfl

/-- **An instruction records a jump exactly when it holds one.** -/
theorem emitInsn_leaves (insn : U32) (pc : U64) (compressed : Bool) :
    (emitInsn insn pc compressed).ops.countP SljitOp.leaves = if (emitInsn insn pc compressed).epilogue_jump then 1 else 0 := by
  unfold emitInsn
  split
  · simp [emitOp, Emitted.alu]
  · simp [emitOpImm, Emitted.alu]
  · unfold emitOp32
    dsimp only
    split <;> simp [Emitted.alu, Emitted.unsupported]
  · unfold emitOpImm32
    dsimp only
    split <;> simp [Emitted.alu, Emitted.unsupported]
  · simp [emitLui, Emitted.alu]
  · simp [emitAuipc, Emitted.alu]
  · simp [emitJal, Emitted.last]
  · simp [emitJalr, Emitted.last]
  · unfold emitBranch
    dsimp only
    split <;> simp [Emitted.last, Emitted.unsupported]
  · simp [emitLoad, Emitted.call]
  · simp [emitStore, Emitted.call]
  all_goals simp [emitFp, Emitted.call, Emitted.unsupported]

theorem emitWord_leaves (disabled : BitVec 128) (word : U32) (pc : U64) :
    (emitWord disabled word pc).ops.countP SljitOp.leaves = if (emitWord disabled word pc).epilogue_jump then 1 else 0 := by
  unfold emitWord
  dsimp only
  generalize (if isCompressed word then sljitUncompress (word.setWidth 16) else word) = insn
  split
  · rfl
  · split
    · rfl
    · exact emitInsn_leaves _ _ _

/-! ## The loop -/

section Loop

variable {k : Compile} {disabled : BitVec 128} {word : U32}

theorem take_num (k : Compile) (word : U32) (e : Emitted) :
    (k.take word e).1.num_epilogue_jumps = k.num_epilogue_jumps + if e.epilogue_jump then 1 else 0 := rfl

theorem take_recorded (h : k.ops.countP SljitOp.leaves = k.num_epilogue_jumps) :
    let k' := (k.take word (emitWord disabled word k.pc)).1
    k'.ops.countP SljitOp.leaves = k'.num_epilogue_jumps := by
  dsimp only
  have htail : (if (k.take word (emitWord disabled word k.pc)).2 then []
      else [SljitOp.mov .mov .pc (.imm (k.pc + insnBytes (isCompressed word)))]).countP SljitOp.leaves = 0 := by
    split <;> rfl
  rw [take_ops, take_num, List.countP_append, List.countP_append, List.countP_append, htail, emitWord_leaves, h]
  rfl

/-- An instruction that goes on leaves room for the next one. -/
theorem Compile.JumpsFit.take (h : k.JumpsFit) (hgo : (k.take word (emitWord disabled word k.pc)).2 = false) :
    (k.take word (emitWord disabled word k.pc)).1.JumpsFit := by
  refine ⟨take_recorded h.recorded, ?_⟩
  have hroom := h.room
  rw [take_ended, Bool.or_eq_false_iff] at hgo
  rw [take_num]
  cases hjump : (emitWord disabled word k.pc).epilogue_jump with
  | false => simpa using hroom
  | true =>
    have hless : k.num_epilogue_jumps < 60 := by simpa [hjump] using hgo.2
    exact hless

/-- The last instruction records one jump at most. -/
theorem Compile.JumpsFit.take_le (h : k.JumpsFit) (e : Emitted) : (k.take word e).1.num_epilogue_jumps ≤ 61 := by
  have hroom := h.room
  rw [take_num]
  split <;> omega

variable [NetDevice]

/-- **The loop records every jump that it lays, and at most 61.** -/
theorem compileLoop_jumps (disabled : BitVec 128) : ∀ (n : Nat) {k : Compile} (c : Cpu), k.JumpsFit →
    let k' := (compileLoop disabled n k c).1
    k'.ops.countP SljitOp.leaves = k'.num_epilogue_jumps ∧ k'.num_epilogue_jumps ≤ 61
  | 0, k, c, h => ⟨h.recorded, Nat.le_succ_of_le h.room⟩
  | n + 1, k, c, h => by
    unfold compileLoop
    cases rv64CpuLoad k.pc 4 .exec c with
    | error exc d => exact ⟨h.recorded, Nat.le_succ_of_le h.room⟩
    | ok val d =>
      dsimp only
      cases hsup : (emitWord disabled (val.setWidth 32) k.pc).supported with
      | false =>
        have hloads := (emitWord_loadsOnly disabled (val.setWidth 32) k.pc).resolve_left (by rw [hsup]; decide)
        have hnone : (emitWord disabled (val.setWidth 32) k.pc).ops.countP SljitOp.leaves = 0 := by
          refine List.countP_eq_zero.2 fun op hop => ?_
          obtain ⟨r, rfl | rfl⟩ := hloads op hop <;> simp
        rw [if_pos (by simp)]
        exact ⟨by rw [List.countP_append, hnone, Nat.add_zero]; exact h.recorded, Nat.le_succ_of_le h.room⟩
      | true =>
        rw [if_neg (by simp)]
        cases hr : (k.take (val.setWidth 32) (emitWord disabled (val.setWidth 32) k.pc)).2 with
        | true => exact ⟨take_recorded h.recorded, h.take_le _⟩
        | false => exact compileLoop_jumps disabled n d (h.take hr)

/-! ## The bound -/

/-- **The jumps of a block fit their array**, for every guest code and every setting of the block length: 0 to 4096, which
`vm_jit_block_size` lets through, and any other. -/
theorem epilogueJumps_le (j : JitState) (rtMaxBlockInsns : U32) (guestPc : U64) (c : Cpu) :
    let k := (compileLoop j.disabled_ops (maxInsns { j with rt_max_block_insns := rtMaxBlockInsns }) (.start guestPc) c).1
    k.num_epilogue_jumps ≤ epilogueSlots ∧ k.ops.countP SljitOp.leaves = k.num_epilogue_jumps := by
  have hfit := compileLoop_jumps j.disabled_ops (maxInsns { j with rt_max_block_insns := rtMaxBlockInsns }) c
    (k := .start guestPc) ⟨rfl, Nat.zero_le 60⟩
  exact ⟨Nat.le_trans hfit.2 (by decide), hfit.1⟩

end Loop

end PgLinux
