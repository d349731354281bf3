import PgLinux.Rules
/-!
# BlockCode — what a block is made of

The operations of one instruction stay inside it: they assign scratch registers, guest registers other than `x0` and the
pc, and jump to their own labels or to the epilogue.  A block is its instructions one after the other (`Laid`), so a
statement about the operations of one instruction becomes one about blocks by induction.
-/
namespace PgLinux

open Prog

/-! ## The operations of one instruction -/

/-- `pc` tells whether the pc may be assigned. -/
def Operand.confined (pc : Bool) : Operand → Bool
  | .reg r => r != .S0 && r != .S1
  | .x r => r != 0
  | .pc => pc
  | .imm _ | .loc => false

/-- An operation of one instruction, the call of the FPU apart. -/
def SljitOp.confined (pc : Bool) : SljitOp → Bool
  | .mov _ dst _ | .op2 _ dst _ _ => dst.confined pc
  | .flags dst _ | .localBase dst => (Operand.reg dst).confined pc
  | .label l => l != .epilogue
  | .icall f => f != .fpExec
  | .cmp .. | .jump _ => true

section Confined

variable (pc : Bool)

@[simp] theorem confined_mov (t : MovType) (dst src : Operand) :
    (SljitOp.mov t dst src).confined pc = dst.confined pc := rfl

@[simp] theorem confined_op2 (op : Op2) (dst a b : Operand) :
    (SljitOp.op2 op dst a b).confined pc = dst.confined pc := rfl

@[simp] theorem confined_cmp (c : Cond) (a b : Operand) (l : Label) : (SljitOp.cmp c a b l).confined pc = true := rfl

@[simp] theorem confined_jump (l : Label) : (SljitOp.jump l).confined pc = true := rfl

@[simp] theorem confined_label (l : Label) : (SljitOp.label l).confined pc = (l != .epilogue) := rfl

@[simp] theorem confined_icall (f : ICall) : (SljitOp.icall f).confined pc = (f != .fpExec) := rfl

@[simp] theorem confined_r0 : r0.confined pc = true := rfl

@[simp] theorem confined_r1 : r1.confined pc = true := rfl

@[simp] theorem confined_regR0 : (Operand.reg .R0).confined pc = true := rfl

@[simp] theorem confined_regR1 : (Operand.reg .R1).confined pc = true := rfl

@[simp] theorem confined_pc : Operand.pc.confined pc = pc := rfl

@[simp] theorem emitStoreGuest_confined (grs : BitVec 5) (src : SReg) :
    (emitStoreGuest grs src).all (SljitOp.confined pc) = true := by
  unfold emitStoreGuest
  split
  · rfl
  next h => simpa [Operand.confined] using h

@[simp] theorem emitLoadGuest_confined (dst : SReg) (grs : BitVec 5) :
    (emitLoadGuest dst grs).confined pc = (Operand.reg dst).confined pc := by
  unfold emitLoadGuest
  split <;> rfl

@[simp] theorem emitOpAlu_confined (insn : U32) : (emitOpAlu insn).all (SljitOp.confined pc) = true := by
  unfold emitOpAlu
  split <;> rfl

@[simp] theorem emitOpImmAlu_confined (insn : U32) : (emitOpImmAlu insn).all (SljitOp.confined pc) = true := by
  unfold emitOpImmAlu
  dsimp only
  split <;> rfl

@[simp] theorem emitLoadExt_confined (insn : U32) : (emitLoadExt insn).all (SljitOp.confined pc) = true := by
  unfold emitLoadExt
  split <;> rfl

@[simp] theorem emitMemoryIcall_confined (isStore : Bool) (size : U64) (rs1 : BitVec 5) (imm : U64) (rs2 : BitVec 5) :
    (emitMemoryIcall isStore size rs1 imm rs2).all (SljitOp.confined pc) = true := by
  unfold emitMemoryIcall
  cases isStore
  · split <;> rfl
  · split
    · show List.all (_ ++ _ ++ [if rs2 = 0 then _ else _, _] ++ _ ++ _) _ = true
      split <;> rfl
    · show List.all (_ ++ _ ++ [if rs2 = 0 then _ else _, _] ++ _ ++ _) _ = true
      split <;> rfl

end Confined

theorem emitOp32_confined (insn : U32) : (emitOp32 insn).ops.all (SljitOp.confined true) = true := by
  unfold emitOp32
  dsimp only
  split <;> simp [Emitted.alu, Emitted.unsupported]

theorem emitOpImm32_confined (insn : U32) : (emitOpImm32 insn).ops.all (SljitOp.confined true) = true := by
  unfold emitOpImm32
  dsimp only
  split <;> simp [Emitted.alu, Emitted.unsupported]

theorem emitBranch_confined (insn : U32) (pc : U64) (compressed : Bool) :
    (emitBranch insn pc compressed).ops.all (SljitOp.confined true) = true := by
  unfold emitBranch
  dsimp only
  split <;> simp [Emitted.last, Emitted.unsupported]

/-- **Apart from floating point, the operations of an instruction are confined.** -/
theorem emitInsn_confined (insn : U32) (pc : U64) (compressed : Bool) :
    (emitInsn insn pc compressed).ops.all (SljitOp.confined true) = true ∨
      emitInsn insn pc compressed = emitFp insn pc := by
  unfold emitInsn
  split
  · simp [emitOp, Emitted.alu]
  · simp [emitOpImm, Emitted.alu]
  · exact .inl (emitOp32_confined insn)
  · exact .inl (emitOpImm32_confined insn)
  · simp [emitLui, Emitted.alu]
  · simp [emitAuipc, Emitted.alu]
  · simp [emitJal, Emitted.last]
  · simp [emitJalr, Emitted.last]
  · exact .inl (emitBranch_confined insn pc compressed)
  · simp [emitLoad, Emitted.call]
  · simp [emitStore, Emitted.call]
  all_goals first | exact .inr rfl | simp [Emitted.unsupported]

/-- **A load or a store sets the pc first, and then leaves it alone.** -/
theorem emitInsn_call {insn : U32} {pc : U64} {compressed : Bool}
    (h : (emitInsn insn pc compressed).epilogue_jump = true) :
    (emitInsn insn pc compressed).block_ended = false ∧
      ((∃ ops, (emitInsn insn pc compressed).ops = .mov .mov .pc (.imm pc) :: ops ∧
        ops.all (SljitOp.confined false) = true) ∨ emitInsn insn pc compressed = emitFp insn pc) := by
  have h32 : (emitOp32 insn).epilogue_jump = false := by
    unfold emitOp32
    dsimp only
    split <;> rfl
  have himm32 : (emitOpImm32 insn).epilogue_jump = false := by
    unfold emitOpImm32
    dsimp only
    split <;> rfl
  have hbranch : (emitBranch insn pc compressed).epilogue_jump = false := by
    unfold emitBranch
    dsimp only
    split <;> rfl
  revert h
  unfold emitInsn
  split <;> intro h
  case h_3 => rw [h32] at h; cases h
  case h_4 => rw [himm32] at h; cases h
  case h_9 => rw [hbranch] at h; cases h
  case h_10 => exact ⟨rfl, .inl ⟨_, rfl, by simp⟩⟩
  case h_11 => exact ⟨rfl, .inl ⟨_, rfl, by simp⟩⟩
  all_goals first | exact ⟨rfl, .inr rfl⟩ | cases h

/-- An instruction that is not supported leaves loads of its sources behind at most. -/
def Emitted.LoadsOnly (e : Emitted) : Prop :=
  e.supported = true ∨ ∀ op ∈ e.ops, ∃ r, op = emitLoadGuest .R0 r ∨ op = emitLoadGuest .R1 r

theorem loadsOnly_nil : (Emitted.unsupported []).LoadsOnly := .inr fun _ h => nomatch h

theorem loadsOnly_one (r : BitVec 5) : (Emitted.unsupported [emitLoadGuest .R0 r]).LoadsOnly :=
  .inr fun _ h => ⟨r, .inl (List.mem_singleton.1 h)⟩

theorem loadsOnly_two (r r' : BitVec 5) :
    (Emitted.unsupported [emitLoadGuest .R0 r, emitLoadGuest .R1 r']).LoadsOnly := by
  refine .inr fun op h => ?_
  rcases List.mem_cons.1 h with rfl | h
  · exact ⟨r, .inl rfl⟩
  · exact ⟨r', .inr (List.mem_singleton.1 h)⟩

theorem emitInsn_loadsOnly (insn : U32) (pc : U64) (compressed : Bool) : (emitInsn insn pc compressed).LoadsOnly := by
  have h32 : (emitOp32 insn).LoadsOnly := by
    unfold emitOp32
    dsimp only
    split
    case h_4 => exact loadsOnly_two _ _
    all_goals exact .inl rfl
  have himm32 : (emitOpImm32 insn).LoadsOnly := by
    unfold emitOpImm32
    dsimp only
    split
    case h_4 => exact loadsOnly_one _
    all_goals exact .inl rfl
  have hbranch : (emitBranch insn pc compressed).LoadsOnly := by
    unfold emitBranch
    dsimp only
    split
    · exact loadsOnly_two _ _
    · exact .inl rfl
  unfold emitInsn
  split
  case h_3 => exact h32
  case h_4 => exact himm32
  case h_9 => exact hbranch
  case h_19 => exact loadsOnly_nil
  all_goals exact .inl rfl

theorem emitWord_loadsOnly (disabled : BitVec 128) (word : U32) (pc : U64) : (emitWord disabled word pc).LoadsOnly := by
  unfold emitWord
  dsimp only
  generalize (if isCompressed word then sljitUncompress (word.setWidth 16) else word) = insn
  split
  · exact loadsOnly_nil
  · split
    · exact loadsOnly_nil
    · exact emitInsn_loadsOnly _ _ _

/-- A word that is taken emits the same operations whatever else is disabled. -/
theorem emitWord_supported {disabled : BitVec 128} {word : U32} {pc : U64}
    (h : (emitWord disabled word pc).supported = true) : emitWord disabled word pc = emitWord 0 word pc := by
  unfold emitWord at h ⊢
  dsimp only at h ⊢
  generalize (if isCompressed word then sljitUncompress (word.setWidth 16) else word) = insn at h ⊢
  split
  · rfl
  next hzero =>
    rw [if_neg hzero] at h
    split
    next hdis =>
      rw [if_pos hdis] at h
      cases h
    next =>
      rw [if_neg (by simp)]

/-! ## The instructions of a block -/

/-- What the decoder emits for an instruction of a block. -/
def JitSrc.emitted (i : JitSrc) : Emitted := emitWord 0 i.word i.va

/-- The fall-through pc. -/
def JitSrc.next (i : JitSrc) : U64 := i.va + insnBytes (isCompressed i.word)

/-- The operations of a block of this instruction alone, between its entry and its epilogue. -/
def JitSrc.single (i : JitSrc) : List SljitOp :=
  i.emitted.ops ++ [countOp] ++ if i.emitted.block_ended then [] else [.mov .mov .pc (.imm i.next)]

/-- A load, a store or a floating-point instruction: its operations call a C function and jump to the epilogue. -/
def JitSrc.calls (i : JitSrc) : Bool := i.emitted.epilogue_jump

/-- A call is an instruction of its own kind, and never the end of a block by itself. -/
theorem JitSrc.emitted_of_calls {i : JitSrc} (h : i.calls = true) :
    ∃ insn compressed, i.emitted = emitInsn insn i.va compressed ∧ (emitInsn insn i.va compressed).epilogue_jump = true := by
  unfold JitSrc.calls at h
  unfold JitSrc.emitted emitWord at h ⊢
  dsimp only at h ⊢
  generalize (if isCompressed i.word then sljitUncompress (i.word.setWidth 16) else i.word) = insn at h ⊢
  split at h
  · cases h
  next hzero =>
    rw [if_neg hzero]
    split at h
    · cases h
    next hdis =>
      rw [if_neg hdis]
      exact ⟨insn, _, rfl, h⟩

theorem JitSrc.goes_on_of_calls {i : JitSrc} (h : i.calls = true) : i.emitted.block_ended = false := by
  obtain ⟨insn, compressed, he, hjump⟩ := JitSrc.emitted_of_calls h
  rw [he]
  exact (emitInsn_call hjump).1

/-- The operations from `pc` on, when the block already holds `jumps` calls. -/
inductive Laid : Nat → U64 → List JitSrc → List SljitOp → Prop
  | stop {jumps pc} {ops : List SljitOp} (h : ∀ op ∈ ops, ∃ r, op = emitLoadGuest .R0 r ∨ op = emitLoadGuest .R1 r) :
    Laid jumps pc [] ops
  | jump {jumps} (i : JitSrc) (hs : i.emitted.supported = true) (hend : i.emitted.block_ended = true) :
    Laid jumps i.va [i] i.single
  | limit {jumps} (i : JitSrc) (hs : i.emitted.supported = true) (hend : i.emitted.block_ended = false)
    (hcall : i.calls = true) (hfull : 60 ≤ jumps) : Laid jumps i.va [i] (i.emitted.ops ++ [countOp])
  | next {jumps} (i : JitSrc) (hs : i.emitted.supported = true) (hend : i.emitted.block_ended = false)
    (hroom : i.calls = true → jumps < 60) {src : List JitSrc} {ops : List SljitOp}
    (h : Laid (jumps + if i.calls then 1 else 0) i.next src ops) : Laid jumps i.va (i :: src) (i.single ++ ops)

theorem take_ended (k : Compile) (word : U32) (e : Emitted) :
    (k.take word e).2 = (e.block_ended || e.epilogue_jump && decide (60 ≤ k.num_epilogue_jumps)) := by
  show (e.block_ended || e.epilogue_jump && decide (60 < k.num_epilogue_jumps + if e.epilogue_jump then 1 else 0)) = _
  cases e.epilogue_jump with
  | false => rfl
  | true =>
    have hiff : 60 < k.num_epilogue_jumps + 1 ↔ 60 ≤ k.num_epilogue_jumps := Nat.lt_succ_iff
    simp only [if_true, hiff]

theorem take_ops (k : Compile) (word : U32) (e : Emitted) : (k.take word e).1.ops = k.ops ++ (e.ops ++ [countOp] ++
    if (k.take word e).2 then [] else [.mov .mov .pc (.imm (k.pc + insnBytes (isCompressed word)))]) := by
  rw [← List.append_assoc, ← List.append_assoc]
  rfl

theorem maxInsns_lt (j : JitState) : maxInsns j < 2 ^ 31 := by
  unfold maxInsns
  split
  next hpos =>
    rw [BitVec.slt_eq_decide, decide_eq_true_eq, BitVec.toInt_eq_toNat_cond j.rt_max_block_insns] at hpos
    have hzero : (0 : U32).toInt = 0 := rfl
    split at hpos <;> omega
  next => decide

section Compiled

variable [NetDevice]

/-- **`jit_compile_block` lays its instructions one after the other.** -/
theorem compileLoop_laid (disabled : BitVec 128) : ∀ (n : Nat) (k : Compile) (c : Cpu), ∃ src ops,
    (compileLoop disabled n k c).1.src = k.src ++ src ∧ (compileLoop disabled n k c).1.ops = k.ops ++ ops ∧
      Laid k.num_epilogue_jumps k.pc src ops ∧
      (compileLoop disabled n k c).1.insn_count = k.insn_count + src.length ∧ src.length ≤ n
  | 0, k, _ => ⟨[], [], by simp [compileLoop], by simp [compileLoop], .stop (by simp), by simp [compileLoop], by simp⟩
  | n + 1, k, c => by
    unfold compileLoop
    cases hload : rv64CpuLoad k.pc 4 .exec c with
    | error exc d => exact ⟨[], [], by simp, by simp, .stop (by simp), by simp, by simp⟩
    | ok val d =>
      dsimp only
      generalize hword : (val.setWidth 32 : U32) = word
      cases hsup : (emitWord disabled word k.pc).supported with
      | false =>
        have hloads := (emitWord_loadsOnly disabled word k.pc).resolve_left (by rw [hsup]; decide)
        exact ⟨[], _, by simp, rfl, .stop hloads, by simp, by simp⟩
      | true =>
        let i : JitSrc := ⟨k.pc, word⟩
        have hemit : emitWord disabled word k.pc = i.emitted := emitWord_supported hsup
        rw [hemit] at hsup ⊢
        have hops := take_ops k word i.emitted
        have hended := take_ended k word i.emitted
        rw [if_neg (by simp)]
        cases hr : (k.take word i.emitted).2 with
        | true =>
          rw [if_pos rfl]
          rw [hr] at hops hended
          cases hend : i.emitted.block_ended with
          | true =>
            refine ⟨[i], i.single, rfl, ?_, .jump i hsup hend, rfl, by simp⟩
            rw [hops, JitSrc.single, hend]
            rfl
          | false =>
            rw [hend, Bool.false_or, eq_comm, Bool.and_eq_true, decide_eq_true_eq] at hended
            exact ⟨[i], i.emitted.ops ++ [countOp], rfl, by rw [hops, if_pos rfl, List.append_nil],
              .limit i hsup hend hended.1 hended.2, rfl, by simp⟩
        | false =>
          rw [if_neg (by decide)]
          rw [hr] at hops hended
          rw [eq_comm, Bool.or_eq_false_iff] at hended
          obtain ⟨hend, hroom⟩ := hended
          have hpc : (k.take word i.emitted).1.pc = i.next := by
            show (if (k.take word i.emitted).2 then k.pc else _) = _
            rw [hr]
            rfl
          obtain ⟨src, ops, hs, ho, hlaid, hcount, hlen⟩ := compileLoop_laid disabled n (k.take word i.emitted).1 d
          rw [hpc] at hlaid
          refine ⟨i :: src, i.single ++ ops, ?_, ?_, .next i hsup hend (fun hcall => ?_) hlaid, ?_, by simpa using hlen⟩
          · rw [hs]
            exact List.append_assoc _ [i] src
          · rw [ho, hops, JitSrc.single, hend, List.append_assoc k.ops]
            rfl
          · have hcalls : i.emitted.epilogue_jump = true := hcall
            rw [hcalls, Bool.true_and, decide_eq_false_iff_not] at hroom
            omega
          · rw [hcount]
            show k.insn_count + 1 + src.length = k.insn_count + (src.length + 1)
            omega

/-- The block is one that `jit_compile_block` made for `pc`. -/
def JitBlock.Made (pc : U64) (b : JitBlock) : Prop := ∃ j c, b = (jitCompileBlock j pc c).1

/-- **A compiled block is its entry, its instructions and its epilogue, or holds no instruction.** -/
theorem JitBlock.Made.code {pc : U64} {b : JitBlock} (h : b.Made pc) : b.src.length < 2 ^ 31 ∧
    ((b.src = [] ∧ b.host_code = none) ∨ ∃ ops, Laid 0 pc b.src ops ∧
      b.host_code = some ([.mov .mov (.reg .S1) (.imm 0)] ++ ops ++ [.label .epilogue, .mov .mov r0 (.reg .S1)])) := by
  obtain ⟨j, c, rfl⟩ := h
  obtain ⟨src, ops, hs, ho, hlaid, hcount, hlen⟩ := compileLoop_laid j.disabled_ops (maxInsns j) (.start pc) c
  have hb : (jitCompileBlock j pc c).1 = (compileLoop j.disabled_ops (maxInsns j) (.start pc) c).1.block pc := rfl
  rw [hb]
  generalize (compileLoop j.disabled_ops (maxInsns j) (.start pc) c).1 = k at hs ho hcount
  have hsrc : (k.block pc).src = src := hs
  rw [hsrc]
  refine ⟨Nat.lt_of_le_of_lt hlen (maxInsns_lt j), ?_⟩
  by_cases hnone : k.unsupported = true ∧ k.insn_count = 0
  · have hzero : (Compile.start pc).insn_count + src.length = 0 := hcount ▸ hnone.2
    exact .inl ⟨List.eq_nil_of_length_eq_zero (Nat.eq_zero_of_add_eq_zero_left hzero), if_pos hnone⟩
  · refine .inr ⟨ops, hlaid, (if_neg hnone).trans ?_⟩
    rw [ho]
    rfl

end Compiled

/-! ## Running them -/

/-- Operations of instructions: confined, or the call of the FPU. -/
def Inner (ops : List SljitOp) : Prop := ∀ op ∈ ops, op.confined true = true ∨ op = .icall .fpExec

theorem Inner.append {a b : List SljitOp} (ha : Inner a) (hb : Inner b) : Inner (a ++ b) := by
  intro op hop
  rcases List.mem_append.1 hop with h | h
  · exact ha op h
  · exact hb op h

theorem emitWord_inner (disabled : BitVec 128) (word : U32) (pc : U64) : Inner (emitWord disabled word pc).ops := by
  unfold emitWord
  dsimp only
  generalize (if isCompressed word then sljitUncompress (word.setWidth 16) else word) = insn
  split
  · exact fun _ h => nomatch h
  · split
    · exact fun _ h => nomatch h
    · rcases emitInsn_confined insn pc (isCompressed word) with h | h
      · exact fun op hop => .inl (List.all_eq_true.1 h op hop)
      · rw [h]
        intro op hop
        simp only [emitFp, Emitted.call, List.mem_cons, List.not_mem_nil, or_false] at hop
        rcases hop with rfl | rfl | rfl | rfl | rfl <;> simp

theorem write_count {s : JState} (dst : Operand) (h : dst.confined true = true) (v : U64) :
    (s.write dst v).regs .S1 = s.regs .S1 := by
  cases dst with
  | reg r =>
    have hr : r ≠ .S1 := by
      rintro rfl
      cases h
    exact if_neg hr.symm
  | _ => rfl

theorem Inner.not_label {ops : List SljitOp} (h : Inner ops) : .label .epilogue ∉ ops := fun hmem =>
  absurd (h _ hmem) (by simp)

theorem write_pc {s : JState} {dst : Operand} (h : dst.confined false = true) (v : U64) :
    (s.write dst v).cpu.pc = s.cpu.pc := by
  cases dst with
  | pc => cases h
  | _ => rfl

theorem fpAccess_ok {α : Type} {m : Access α} (hm : Leads AccessFrame m) {addr : U64} {k : α → Cpu → Cpu}
    (hk : ∀ v c, (k v c).pc = c.pc) {c c' : Cpu} (h : fpAccess m addr k c = (.ok, c')) : c'.pc = c.pc := by
  have hframe := hm c
  unfold fpAccess at h
  cases hr : m c with
  | ok v d =>
    rw [hr] at h hframe
    cases h
    obtain ⟨t, b, d, rfl⟩ := hframe
    exact hk v _
  | error exc d =>
    rw [hr] at h
    cases h

theorem Laid.not_label {jumps : Nat} {pc : U64} {src : List JitSrc} {ops : List SljitOp} (h : Laid jumps pc src ops) :
    .label .epilogue ∉ ops := by
  have hcount : (.label .epilogue : SljitOp) ≠ countOp := by simp [countOp]
  have hops (i : JitSrc) : .label .epilogue ∉ i.emitted.ops := (emitWord_inner 0 i.word i.va).not_label
  have hsingle (i : JitSrc) : .label .epilogue ∉ i.single := by
    unfold JitSrc.single
    intro hmem
    simp only [List.mem_append, List.mem_singleton, hcount, or_false] at hmem
    rcases hmem with hmem | hmem
    · exact hops i hmem
    · split at hmem
      · cases hmem
      · simp at hmem
  induction h with
  | stop hloads =>
    intro hmem
    obtain ⟨r, hr | hr⟩ := hloads _ hmem <;> (unfold emitLoadGuest at hr; split at hr <;> cases hr)
  | jump i => exact hsingle i
  | limit i =>
    intro hmem
    simp only [List.mem_append, List.mem_singleton, hcount, or_false] at hmem
    exact hops i hmem
  | next i _ _ _ _ ih => exact fun hmem => (List.mem_append.1 hmem).elim (hsingle i) ih

section Runs

variable [NetDevice] [HostFp]

theorem call_count (s : JState) (f : ICall) : (s.call f).regs .S1 = s.regs .S1 := by
  unfold JState.call
  cases f with
  | load =>
    dsimp only
    cases rv64CpuLoad (s.regs .R1) (s.regs .R2).toNat .read s.cpu <;> rfl
  | store =>
    dsimp only
    cases cpuStore (s.regs .R1) (s.regs .R2).toNat (s.regs .R3) s.cpu <;> rfl
  | fpExec =>
    dsimp only
    rcases rv64FpExec ((s.regs .R1).setWidth 32) s.cpu with ⟨_ | _ | _, c⟩ <;> rfl

theorem exec_count {op : SljitOp} (h : op.confined true = true ∨ op = .icall .fpExec) (s : JState) :
    (s.exec op).regs .S1 = s.regs .S1 := by
  cases op with
  | icall f => exact call_count s f
  | mov t dst src => exact write_count dst (h.resolve_right (by simp)) _
  | op2 op dst a b =>
    have hs : ∀ s' : JState, s'.regs = s.regs → (s'.write dst (op.eval s.undef (s.read a) (s.read b))).regs .S1 = s.regs .S1 :=
      fun s' hs' => (write_count dst (h.resolve_right (by simp)) _).trans (congrFun hs' .S1)
    exact hs _ (by split <;> rfl)
  | flags dst c => exact write_count (.reg dst) (h.resolve_right (by simp)) _
  | localBase dst => exact write_count (.reg dst) (h.resolve_right (by simp)) _
  | cmp c a b l => rfl
  | jump l => rfl
  | label l => rfl

theorem runOps_nil (mode : Option Label) (s : JState) : runOps mode [] s = (mode, s) := by cases mode <;> rfl

/-- **The operations of instructions leave the count alone.** -/
theorem Inner.count : ∀ {ops : List SljitOp}, Inner ops → ∀ (mode : Option Label) (s : JState),
    (runOps mode ops s).2.regs .S1 = s.regs .S1
  | [], _, mode, s => by rw [runOps_nil]
  | _ :: _, h, some _, s => Inner.count (fun o ho => h o (List.mem_cons_of_mem _ ho)) _ s
  | _ :: _, h, none, s => (Inner.count (fun o ho => h o (List.mem_cons_of_mem _ ho)) _ _).trans
      (exec_count (h _ List.mem_cons_self) s)

/-- **A jump to the epilogue skips what comes before it.** -/
theorem runOps_skip : ∀ {ops : List SljitOp}, .label .epilogue ∉ ops → ∀ s : JState,
    runOps (some .epilogue) ops s = (some .epilogue, s)
  | [], _, _ => rfl
  | op :: ops, h, s => by
    show runOps (if op = .label .epilogue then none else some .epilogue) ops s = _
    rw [if_neg (fun ho => h (by rw [ho]; exact List.mem_cons_self))]
    exact runOps_skip (fun ho => h (List.mem_cons_of_mem _ ho)) s

/-! ### The pc -/

theorem call_pc (s : JState) {f : ICall} (hf : f ≠ .fpExec) : (s.call f).cpu.pc = s.cpu.pc := by
  cases f with
  | load =>
    have hframe := rv64CpuLoad_frame (s.regs .R1) (s.regs .R2).toNat .read s.cpu
    unfold JState.call
    dsimp only
    cases hr : rv64CpuLoad (s.regs .R1) (s.regs .R2).toNat .read s.cpu <;>
    · rw [hr] at hframe
      obtain ⟨t, b, d, rfl⟩ := hframe
      rfl
  | store =>
    have hframe := cpuStore_frame (s.regs .R1) (s.regs .R2).toNat (s.regs .R3) s.cpu
    unfold JState.call
    dsimp only
    cases hr : cpuStore (s.regs .R1) (s.regs .R2).toNat (s.regs .R3) s.cpu <;>
    · rw [hr] at hframe
      obtain ⟨t, b, d, rfl⟩ := hframe
      rfl
  | fpExec => exact absurd rfl hf

theorem exec_pc {op : SljitOp} (h : op.confined false = true) (s : JState) : (s.exec op).cpu.pc = s.cpu.pc := by
  cases op with
  | icall f => exact call_pc s (by simpa using h)
  | mov t dst src => exact write_pc h _
  | op2 op dst a b =>
    have hs : ∀ s' : JState, s'.cpu = s.cpu →
        (s'.write dst (op.eval s.undef (s.read a) (s.read b))).cpu.pc = s.cpu.pc := fun s' hs' =>
      (write_pc h _).trans (congrArg Cpu.pc hs')
    exact hs _ (by split <;> rfl)
  | flags dst c => rfl
  | localBase dst => rfl
  | cmp c a b l => rfl
  | jump l => rfl
  | label l => rfl

theorem runOps_pc : ∀ {ops : List SljitOp}, ops.all (SljitOp.confined false) = true → ∀ (mode : Option Label) (s : JState),
    (runOps mode ops s).2.cpu.pc = s.cpu.pc
  | [], _, mode, s => by rw [runOps_nil]
  | op :: ops, h, some _, s => runOps_pc (Bool.and_eq_true_iff.1 h).2 _ s
  | op :: ops, h, none, s =>
    (runOps_pc (Bool.and_eq_true_iff.1 h).2 _ _).trans (exec_pc (Bool.and_eq_true_iff.1 h).1 s)

/-- A floating-point instruction that completes leaves the pc to its caller. -/
theorem rv64FpExec_ok {insn : U32} {c c' : Cpu} (h : rv64FpExec insn c = (.ok, c')) : c'.pc = c.pc := by
  unfold rv64FpExec at h
  dsimp only at h
  split at h
  · split at h
    · exact fpAccess_ok (c := markFsDirty c) (k := fun v => wrF (rd insn) (v.setWidth 32)) (rv64CpuLoad_frame _ _ _)
        (fun _ _ => rfl) h
    · split at h
      · exact fpAccess_ok (c := markFsDirty c) (k := fun v => wrD (rd insn) v) (rv64CpuLoad_frame _ _ _)
          (fun _ _ => rfl) h
      · cases h
  · split at h
    · exact fpAccess_ok (c := markFsDirty c) (cpuStore_frame _ _ _) (fun _ _ => rfl) h
    · split at h
      · exact fpAccess_ok (c := markFsDirty c) (cpuStore_frame _ _ _) (fun _ _ => rfl) h
      · cases h
  · cases hr : fpCompute (markFsDirty c) insn with
    | none => rw [hr] at h; cases h
    | some d =>
      rw [hr] at h
      cases h
      obtain ⟨x, f, rfl⟩ := fpCompute_regs _ _ _ hr
      rfl

/-! ### The FPU -/

/-- What `rv64_fp_exec` returns. -/
def FpResult.word : FpResult → U64
  | .ok => 0
  | .illegal => ~~~0
  | .faulted => 1

theorem call_fpExec (s : JState) : s.call .fpExec = s.returned (rv64FpExec ((s.regs .R1).setWidth 32) s.cpu).1.word
    (rv64FpExec ((s.regs .R1).setWidth 32) s.cpu).2 := by
  unfold JState.call
  dsimp only
  rcases rv64FpExec ((s.regs .R1).setWidth 32) s.cpu with ⟨_ | _ | _, c⟩ <;> rfl

/-- **The block calls `rv64_fp_exec` at the instruction's pc**, and is left unless that returns 0. -/
theorem runOps_emitFp (insn : U32) (pc : U64) (s : JState) {r : FpResult} {c : Cpu}
    (h : rv64FpExec insn { s.cpu with pc := pc } = (r, c)) : ∃ t : JState, t.cpu = c ∧
      runOps none (emitFp insn pc).ops s = (if r = .ok then none else some .epilogue, t) := by
  have hinsn : (insn.setWidth 64).setWidth 32 = insn := by
    apply BitVec.eq_of_getLsbD_eq
    intro i hi
    simp [hi]
  let t : JState := ((s.exec (.mov .mov .pc (.imm pc))).exec (.mov .mov r0 (.reg .S0))).exec (.mov .mov r1 (.imm (insn.setWidth 64)))
  have hcall : t.call .fpExec = t.returned r.word c := by
    have hr1 : (t.regs .R1).setWidth 32 = insn := hinsn
    have hcpu : t.cpu = { s.cpu with pc := pc } := rfl
    rw [call_fpExec, hr1, hcpu, h]
  refine ⟨t.returned r.word c, rfl, ?_⟩
  show runOps ((t.call .fpExec).target (.cmp .notEqual r0 (.imm 0) .epilogue)) [] (t.call .fpExec) = _
  rw [runOps_nil, hcall]
  cases r <;> rfl

end Runs

end PgLinux
