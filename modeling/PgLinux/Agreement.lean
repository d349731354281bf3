import PgLinux.Jit
import PgLinux.Frames
/-!
# Agreement — the JIT and the interpreter on integer computation

Both decoders write one value to rd: `intValue` is the interpreter's, `jitValue` the block's.  The block's is the
interpreter's with the M extension left out and with SRAI recognised by bits 31..26 being exactly 0x10.
-/
namespace PgLinux

open Prog

/-! ## The words and the states -/

/-- OP, OP-IMM, OP-32, OP-IMM-32, LUI and AUIPC. -/
def IntOpcode (insn : U32) : Prop := (opcode insn).toNat ∈ [0x33, 0x13, 0x3B, 0x1B, 0x37, 0x17]

instance (insn : U32) : Decidable (IntOpcode insn) := by unfold IntOpcode; infer_instance

section Words

variable [NetDevice] [HostFp]

/-- `rv64_step` on `c` fetches `insn` and executes it without a trap. -/
structure Executes (insn : U32) (c : Cpu) : Prop where
  running : c.halted = false
  fetched : ∃ v c', rv64CpuLoad c.pc 4 .exec (checkBreak c) = .ok v c' ∧ v.setWidth 32 = insn
  retired : ∃ c', stepBody c = .ok () c'

/-- From every state that executes an accepted word, the operations and the interpreter leave the same registers. -/
def IntAgrees (insn : U32) : Prop :=
  ∀ s : JState, s.cpu.x 0 = 0 → (emitInsn insn s.cpu.pc false).supported = true → Executes insn s.cpu →
    (runOps none (emitInsn insn s.cpu.pc false).ops s).2.cpu.x = (rv64Step s.cpu).x

end Words

/-! ## The values -/

def intValue (insn : U32) (pc : U64) (x : BitVec 5 → U64) : Option U64 :=
  match (opcode insn).toNat with
  | 0x37 => some (immU insn)
  | 0x17 => some (pc + immU insn)
  | 0x13 => some (aluOpImm insn (x (rs1 insn)))
  | 0x33 => some (aluOp (funct7 insn) (funct3 insn) (x (rs1 insn)) (x (rs2 insn)))
  | 0x1B => (aluOpImm32 insn ((x (rs1 insn)).setWidth 32)).map fun v => v.signExtend 64
  | 0x3B =>
    (aluOp32 (funct7 insn) (funct3 insn) ((x (rs1 insn)).setWidth 32) ((x (rs2 insn)).setWidth 32)).map fun v =>
      v.signExtend 64
  | _ => none

/-- `funct7` with the M extension's value, which the block's decoder does not test for, read as 0. -/
def baseFunct7 (insn : U32) : BitVec 7 := if funct7 insn = 0x01 then 0 else funct7 insn

def jitOpImm (insn : U32) (src : U64) : U64 :=
  if funct3 insn = 5 ∧ insn >>> 26 ≠ 0x10 then src >>> (insn.extractLsb' 20 6) else aluOpImm insn src

def jitValue (insn : U32) (pc : U64) (x : BitVec 5 → U64) : U64 :=
  match (opcode insn).toNat with
  | 0x37 => immU insn
  | 0x17 => pc + immU insn
  | 0x13 => jitOpImm insn (x (rs1 insn))
  | 0x33 => aluOp (baseFunct7 insn) (funct3 insn) (x (rs1 insn)) (x (rs2 insn))
  | 0x1B => ((aluOpImm32 insn ((x (rs1 insn)).setWidth 32)).getD 0).signExtend 64
  | _ =>
    ((aluOp32 (baseFunct7 insn) (funct3 insn) ((x (rs1 insn)).setWidth 32) ((x (rs2 insn)).setWidth 32)).getD
      0).signExtend 64

/-! ## The interpreter -/

theorem IntOpcode.cases {insn : U32} (h : IntOpcode insn) :
    (opcode insn).toNat = 0x33 ∨ (opcode insn).toNat = 0x13 ∨ (opcode insn).toNat = 0x3B ∨
      (opcode insn).toNat = 0x1B ∨ (opcode insn).toNat = 0x37 ∨ (opcode insn).toNat = 0x17 := by
  simpa [IntOpcode] using h

theorem IntOpcode.not_compressed {insn : U32} (h : IntOpcode insn) : isCompressed insn = false := by
  apply isCompressed_of_opcode
  rcases h.cases with h | h | h | h | h | h <;> rw [h]

theorem wr32_run (insn : U32) (r : Option U32) (nextPc : U64) (c : Cpu) :
    (do wr32 insn r; return nextPc : Exec U64) c = match r.map fun v => v.signExtend 64 with
      | some v => .ok nextPc (c.wr (rd insn) v)
      | none => illegal insn c := by cases r <;> rfl

section Interpreter

variable [NetDevice] [HostFp]

/-- **An integer instruction writes its value to rd and goes on, or is illegal.** -/
theorem execInsn_int {insn : U32} (h : IntOpcode insn) (pc nextPc : U64) (c : Cpu) :
    execInsn insn pc nextPc c = match intValue insn pc c.x with
      | some v => .ok nextPc (c.wr (rd insn) v)
      | none => illegal insn c := by
  unfold execInsn intValue
  rcases h.cases with h | h | h | h | h | h <;> simp only [h]
  case inr.inr.inl => exact wr32_run insn _ nextPc c
  case inr.inr.inr.inl => exact wr32_run insn _ nextPc c
  all_goals rfl

/-- **One `rv64_step` on a fetched integer word.** -/
theorem stepBody_int {insn : U32} (h : IntOpcode insn) {c c' : Cpu} {v : U64}
    (hf : rv64CpuLoad c.pc 4 .exec (checkBreak c) = .ok v c') (hv : v.setWidth 32 = insn) :
    stepBody c = match intValue insn c.pc c.x with
      | some val => .ok () (retire (c.pc + 4) ((logInsn insn c').wr (rd insn) val))
      | none => .error () (trap (logInsn insn c') excIllegalInsn (insn.setWidth 64)) := by
  have hframe : AccessFrame c c' := by
    have hload := rv64CpuLoad_frame c.pc 4 .exec (checkBreak c)
    rw [hf] at hload
    exact trans_of AccessFrame (checkBreak_frame c) hload
  have hx : (logInsn insn c').x = c.x := by
    obtain ⟨t, b, d, rfl⟩ := hframe
    rfl
  have hfetch : fetchInsn c.pc (checkBreak c) = .ok insn c' := hv ▸ fetchInsn_ok hf
  have hexp : expandInsn insn = pure insn := by
    unfold expandInsn
    rw [h.not_compressed]
    rfl
  rw [stepBody_fetched hfetch hexp, h.not_compressed]
  show EStateM.bind (execInsn insn c.pc (c.pc + 4)) _ (logInsn insn c') = _
  unfold EStateM.bind
  rw [execInsn_int h, hx]
  cases intValue insn c.pc c.x <;> rfl

theorem rv64Step_int {insn : U32} (h : IntOpcode insn) {c : Cpu} (hx : Executes insn c) :
    ∃ v, intValue insn c.pc c.x = some v ∧ (rv64Step c).x = (c.wr (rd insn) v).x := by
  obtain ⟨w, c', hf, hw⟩ := hx.fetched
  obtain ⟨c'', hr⟩ := hx.retired
  have hframe : AccessFrame c c' := by
    have hload := rv64CpuLoad_frame c.pc 4 .exec (checkBreak c)
    rw [hf] at hload
    exact trans_of AccessFrame (checkBreak_frame c) hload
  have hstep := stepBody_int h hf hw
  cases hval : intValue insn c.pc c.x with
  | none =>
    rw [hval, hr] at hstep
    cases hstep
  | some v =>
    refine ⟨v, rfl, ?_⟩
    rw [hval] at hstep
    unfold rv64Step
    rw [if_neg (by simp [hx.running]), hstep]
    obtain ⟨t, b, d, rfl⟩ := hframe
    rfl

end Interpreter

/-! ## Fields, as the two decoders read them -/

theorem baseFunct7_ne (insn : U32) : baseFunct7 insn ≠ 1 := by
  unfold baseFunct7
  split
  · decide
  · assumption

theorem baseFunct7_sub (insn : U32) : baseFunct7 insn = 0x20 ↔ funct7 insn = 0x20 := by
  unfold baseFunct7
  split
  next h => simp [h]
  next => rfl

theorem sshiftRight_20 (insn : U32) : insn.sshiftRight 20 = (insn.extractLsb' 20 12).signExtend 32 := by
  apply BitVec.eq_of_getLsbD_eq
  intro i hi
  simp only [BitVec.getLsbD_signExtend, BitVec.getLsbD_sshiftRight, BitVec.getLsbD_extractLsb',
    BitVec.msb_eq_getLsbD_last]
  have : (20 + i < 32) ↔ i < 12 := by omega
  grind

/-- The immediate of both decoders. -/
theorem jitImmI_eq (insn : U32) : jitImmI insn = immI insn := by
  apply BitVec.eq_of_toInt_eq
  rw [jitImmI, immI, sshiftRight_20, BitVec.toInt_signExtend_of_le (by decide), BitVec.toInt_signExtend_of_le (by decide),
    BitVec.toInt_signExtend_of_le (by decide)]

/-- The low bits of the immediate are the shift amount. -/
theorem immI_and (insn : U32) (n : Nat) (hn : n ≤ 12) (m : U64) (hm : m = BitVec.ofNat 64 (2 ^ n - 1)) :
    (immI insn &&& m).toNat = (insn.extractLsb' 20 n).toNat := by
  have hv : immI insn &&& m = (insn.extractLsb' 20 n).setWidth 64 := by
    apply BitVec.eq_of_getLsbD_eq
    intro i hi
    have hmask : m.getLsbD i = decide (i < n) := by
      rw [hm, BitVec.getLsbD_ofNat, Nat.testBit_two_pow_sub_one]
      simp [hi]
    simp only [immI, BitVec.getLsbD_and, BitVec.getLsbD_signExtend, BitVec.getLsbD_extractLsb', BitVec.getLsbD_setWidth,
      hmask]
    grind
  rw [hv, BitVec.toNat_setWidth]
  have hlt := (insn.extractLsb' 20 n).isLt
  have hpow : 2 ^ n ≤ 2 ^ 12 := Nat.pow_le_pow_right (by decide) hn
  exact Nat.mod_eq_of_lt (by omega)

theorem shamt64 (insn : U32) : (jitImmI insn &&& 0x3F &&& 0x3F).toNat = (insn.extractLsb' 20 6).toNat := by
  rw [jitImmI_eq, BitVec.and_assoc]
  exact immI_and insn 6 (by decide) _ rfl

theorem shamt32 (insn : U32) :
    ((jitImmI insn &&& 0x1F).setWidth 32 &&& 0x1F : U32).toNat = (insn.extractLsb' 20 5).toNat := by
  have h := immI_and insn 5 (by decide) 0x1F rfl
  rw [jitImmI_eq, BitVec.toNat_and, BitVec.toNat_setWidth, h]
  have hlt := (insn.extractLsb' 20 5).isLt
  exact (Nat.and_two_pow_sub_one_eq_mod _ 5).trans (by omega)

theorem funct7_shift (insn : U32) : (funct7 insn >>> 1).toNat = (insn >>> 26).toNat := by
  have := insn.isLt
  simp only [funct7, BitVec.toNat_ushiftRight, BitVec.extractLsb'_toNat, Nat.shiftRight_eq_div_pow]
  omega

theorem srai_of_shift {insn : U32} (h : insn >>> 26 = 0x10) : funct7 insn >>> 1 ≠ 0 := by
  intro h0
  have := funct7_shift insn
  rw [h, h0] at this
  exact absurd this (by decide)

/-! ## Straight-line operations -/

theorem setAt_eq_wr {c : Cpu} (h0 : c.x 0 = 0) {rd : BitVec 5} (hrd : rd ≠ 0) (v : U64) :
    setAt c.x rd v = (c.wr rd v).x := by
  funext r
  rw [wr_x]
  unfold setAt
  by_cases hr : r = 0
  · rw [if_pos hr, if_neg (hr ▸ Ne.symm hrd), hr, h0]
  · rw [if_neg hr]

theorem low32_setWidth (u : U64) (v : U32) : (low32 u v).setWidth 32 = v := by
  apply BitVec.eq_of_getLsbD_eq
  intro i hi
  rw [low32, BitVec.getLsbD_setWidth, BitVec.getLsbD_append]
  simp [hi]

section Straight

variable [NetDevice] [HostFp]

theorem runOps_append : ∀ (mode : Option Label) (a b : List SljitOp) (s : JState),
    runOps mode (a ++ b) s = runOps (runOps mode a s).1 b (runOps mode a s).2
  | mode, [], b, s => by cases mode <;> rfl
  | none, op :: a, b, s => runOps_append (s.target op) a b (s.exec op)
  | some l, op :: a, b, s => runOps_append (if op = .label l then none else some l) a b s

/-- The operations fall through, leave the machine alone and put `v` in `R0`. -/
def Computes (ops : List SljitOp) (s : JState) (v : U64) : Prop :=
  ∃ s', runOps none ops s = (none, s') ∧ s'.cpu = s.cpu ∧ s'.regs .R0 = v

/-- The operations fall through and only write `v` to `rd`. -/
def Writes (ops : List SljitOp) (s : JState) (rd : BitVec 5) (v : U64) : Prop :=
  ∃ s', runOps none ops s = (none, s') ∧ s'.cpu = s.cpu.wr rd v

/-- **Loads of the sources, the operation, the store of the result.** -/
theorem Computes.stored {ops : List SljitOp} {s : JState} {v : U64} (h : Computes ops s v) (h0 : s.cpu.x 0 = 0)
    (grs : BitVec 5) : Writes (ops ++ emitStoreGuest grs .R0) s grs v := by
  obtain ⟨s', hs, hc, hv⟩ := h
  unfold Writes
  rw [runOps_append, hs]
  unfold emitStoreGuest
  split
  next hz =>
    rw [hz, wr_zero h0]
    exact ⟨s', rfl, hc⟩
  next hz =>
    refine ⟨_, rfl, ?_⟩
    show setX grs (s'.regs .R0) s'.cpu = _
    rw [hc, hv]
    show { s.cpu with x := setAt s.cpu.x grs v } = _
    rw [setAt_eq_wr h0 hz]
    rfl

theorem Computes.load {ops : List SljitOp} {s : JState} {v : U64} {dst : SReg} {grs : BitVec 5} (h0 : s.cpu.x 0 = 0)
    (h : Computes ops (s.write (.reg dst) (s.cpu.x grs)) v) : Computes (emitLoadGuest dst grs :: ops) s v := by
  unfold emitLoadGuest
  split
  next hz =>
    rw [hz, h0] at h
    exact h
  next => exact h

theorem Computes.append {a b : List SljitOp} {s s' : JState} {v : U64} (ha : runOps none a s = (none, s'))
    (hc : s'.cpu = s.cpu) (hb : Computes b s' v) : Computes (a ++ b) s v := by
  obtain ⟨t, ht, htc, hv⟩ := hb
  refine ⟨t, ?_, htc.trans hc, hv⟩
  rw [runOps_append, ha, ht]

theorem computes_op2 (op : Op2) (s : JState) (a b : Operand) :
    Computes [.op2 op r0 a b] s (op.eval s.undef (s.read a) (s.read b)) := by
  refine ⟨s.exec (.op2 op r0 a b), rfl, ?_, ?_⟩
  · cases op <;> rfl
  · cases op <;> rfl

theorem computes_sigLess (s : JState) (a b : Operand) :
    Computes [.op2 .sub r0 a b, .flags .R0 .sigLess] s (boolWord ((s.read a).slt (s.read b))) := ⟨_, rfl, rfl, rfl⟩

theorem computes_less (s : JState) (a b : Operand) :
    Computes [.op2 .sub r0 a b, .flags .R0 .less] s (boolWord (decide (s.read a < s.read b))) := ⟨_, rfl, rfl, rfl⟩

theorem computes_opAlu (insn : U32) (s : JState) :
    Computes (emitOpAlu insn) s (aluOp (baseFunct7 insn) (funct3 insn) (s.regs .R0) (s.regs .R1)) := by
  unfold emitOpAlu aluOp
  rw [if_neg (baseFunct7_ne insn)]
  simp only [baseFunct7_sub]
  by_cases hsub : funct7 insn = 0x20
  all_goals
    simp only [hsub, if_true, if_false]
    rcases (funct3 insn).toNat with _ | _ | _ | _ | _ | _ | _ | n
    · exact computes_op2 _ s r0 r1
    · exact computes_op2 .shl s r0 r1
    · exact computes_sigLess s r0 r1
    · exact computes_less s r0 r1
    · exact computes_op2 .xor s r0 r1
    · exact computes_op2 _ s r0 r1
    · exact computes_op2 .or s r0 r1
    · exact computes_op2 .and s r0 r1

theorem Computes.congr {ops : List SljitOp} {s : JState} {v w : U64} (h : Computes ops s v) (hv : v = w) :
    Computes ops s w := hv ▸ h

theorem computes_opImmAlu (insn : U32) (s : JState) :
    Computes (emitOpImmAlu insn) s (jitOpImm insn (s.regs .R0)) := by
  have hshr : (s.regs .R0) >>> (jitImmI insn &&& 0x3F &&& 0x3F) = (s.regs .R0) >>> (insn.extractLsb' 20 6) := by
    rw [BitVec.ushiftRight_eq', BitVec.ushiftRight_eq', shamt64]
  unfold jitOpImm emitOpImmAlu
  by_cases hsrl : funct3 insn = 5 ∧ insn >>> 26 ≠ 0x10
  · rw [if_pos hsrl]
    have h5 : (funct3 insn).toNat = 5 := congrArg BitVec.toNat hsrl.1
    simp only [h5, hsrl.2, if_false]
    exact (computes_op2 .lshr s r0 _).congr hshr
  · rw [if_neg hsrl]
    have hsra : (funct3 insn).toNat = 5 → insn >>> 26 = 0x10 := fun h5 =>
      Decidable.byContradiction fun h => hsrl ⟨BitVec.eq_of_toNat_eq h5, h⟩
    clear hsrl
    unfold aluOpImm
    rw [← jitImmI_eq]
    generalize (funct3 insn).toNat = n at hsra
    match n with
    | 0 => exact computes_op2 .add s r0 _
    | 1 =>
      refine (computes_op2 .shl s r0 _).congr ?_
      show _ <<< (jitImmI insn &&& 0x3F &&& 0x3F) = _ <<< (insn.extractLsb' 20 6)
      rw [BitVec.shiftLeft_eq', BitVec.shiftLeft_eq', shamt64]
      rfl
    | 2 => exact computes_sigLess s r0 _
    | 3 => exact computes_less s r0 _
    | 4 => exact computes_op2 .xor s r0 _
    | 5 =>
      have h := hsra rfl
      simp only [h, srai_of_shift h, if_true, ne_eq, not_false_eq_true]
      refine (computes_op2 .ashr s r0 _).congr ?_
      show BitVec.sshiftRight _ (jitImmI insn &&& 0x3F &&& 0x3F).toNat = _
      rw [shamt64]
      rfl
    | 6 => exact computes_op2 .or s r0 _
    | _ + 7 => exact computes_op2 .and s r0 _

/-- A 32-bit operation and the sign extension of its result. -/
theorem computes_op2_32 {op : Op2} {s : JState} {a b : Operand} {v : U32}
    (h : op.eval s.undef (s.read a) (s.read b) = low32 s.undef v) :
    Computes ([.op2 op r0 a b] ++ [.mov .s32 r0 r0]) s (v.signExtend 64) := by
  obtain ⟨s', hs, hc, hv⟩ := computes_op2 op s a b
  refine Computes.append hs hc ⟨s'.exec (.mov .s32 r0 r0), rfl, rfl, ?_⟩
  show ((s'.regs .R0).setWidth 32).signExtend 64 = _
  rw [hv, h, low32_setWidth]

/-! ## What an integer instruction's operations write -/

theorem runOps_op32 (insn : U32) (s : JState) (h0 : s.cpu.x 0 = 0) (hsup : (emitOp32 insn).supported = true) :
    Writes (emitOp32 insn).ops s (rd insn) (((aluOp32 (baseFunct7 insn) (funct3 insn)
      ((s.cpu.x (rs1 insn)).setWidth 32) ((s.cpu.x (rs2 insn)).setWidth 32)).getD 0).signExtend 64) := by
  have key (op : Op2) (v : U32)
      (h : op.eval s.undef (s.cpu.x (rs1 insn)) (s.cpu.x (rs2 insn)) = low32 s.undef v) :
      Writes ([emitLoadGuest .R0 (rs1 insn), emitLoadGuest .R1 (rs2 insn)] ++ [.op2 op r0 r0 r1] ++
        ([.mov .s32 r0 r0] ++ emitStoreGuest (rd insn) .R0)) s (rd insn) (v.signExtend 64) :=
    Computes.stored (.load h0 (.load h0 (computes_op2_32 h))) h0 _
  unfold emitOp32 at hsup ⊢
  unfold aluOp32
  rw [if_neg (baseFunct7_ne insn)]
  simp only [baseFunct7_sub]
  by_cases hsub : funct7 insn = 0x20
  all_goals
    simp only [hsub, if_true, if_false] at hsup ⊢
    generalize (funct3 insn).toNat = n at hsup
    rcases n with _ | _ | _ | _ | _ | _ | n
    · exact key _ _ rfl
    · exact key .shl32 _ rfl
    · cases hsup
    · cases hsup
    · cases hsup
    · exact key _ _ rfl
    · cases hsup

theorem runOps_opImm32 (insn : U32) (s : JState) (h0 : s.cpu.x 0 = 0) (hsup : (emitOpImm32 insn).supported = true) :
    Writes (emitOpImm32 insn).ops s (rd insn)
      (((aluOpImm32 insn ((s.cpu.x (rs1 insn)).setWidth 32)).getD 0).signExtend 64) := by
  have key (op : Op2) (imm : U64) (v : U32) (h : op.eval s.undef (s.cpu.x (rs1 insn)) imm = low32 s.undef v) :
      Writes ([emitLoadGuest .R0 (rs1 insn)] ++ [.op2 op r0 r0 (.imm imm)] ++
        ([.mov .s32 r0 r0] ++ emitStoreGuest (rd insn) .R0)) s (rd insn) (v.signExtend 64) :=
    Computes.stored (.load h0 (computes_op2_32 h)) h0 _
  have hshl (a u : U64) : Op2.shl32.eval u a (jitImmI insn &&& 0x1F) =
      low32 u (a.setWidth 32 <<< (insn.extractLsb' 20 5)) := by
    show low32 u (_ <<< ((jitImmI insn &&& 0x1F).setWidth 32 &&& 0x1F)) = _
    rw [BitVec.shiftLeft_eq', BitVec.shiftLeft_eq', shamt32]
  have hlshr (a u : U64) : Op2.lshr32.eval u a (jitImmI insn &&& 0x1F) =
      low32 u (a.setWidth 32 >>> (insn.extractLsb' 20 5)) := by
    show low32 u (_ >>> ((jitImmI insn &&& 0x1F).setWidth 32 &&& 0x1F)) = _
    rw [BitVec.ushiftRight_eq', BitVec.ushiftRight_eq', shamt32]
  have hashr (a u : U64) : Op2.ashr32.eval u a (jitImmI insn &&& 0x1F) =
      low32 u ((a.setWidth 32).sshiftRight (insn.extractLsb' 20 5).toNat) := by
    show low32 u (BitVec.sshiftRight _ ((jitImmI insn &&& 0x1F).setWidth 32 &&& 0x1F).toNat) = _
    rw [shamt32]
  unfold emitOpImm32 at hsup ⊢
  unfold aluOpImm32
  rw [← jitImmI_eq]
  generalize (funct3 insn).toNat = n at hsup
  match n with
  | 0 => exact key .add32 _ _ rfl
  | 1 => exact key .shl32 _ _ (hshl _ _)
  | 5 =>
    by_cases hsra : funct7 insn = 0x20
    · simp only [hsra, if_true]
      exact key .ashr32 _ _ (hashr _ _)
    · simp only [hsra, if_false]
      exact key .lshr32 _ _ (hlshr _ _)
  | 2 | 3 | 4 | _ + 6 => cases hsup

theorem computes_imm (s : JState) (v : U64) : Computes [.mov .mov r0 (.imm v)] s v :=
  ⟨s.exec (.mov .mov r0 (.imm v)), rfl, rfl, rfl⟩

/-- **The operations of an accepted integer word write `jitValue` to rd.** -/
theorem runOps_int {insn : U32} (h : IntOpcode insn) (pc : U64) (s : JState) (h0 : s.cpu.x 0 = 0)
    (hsup : (emitInsn insn pc false).supported = true) :
    Writes (emitInsn insn pc false).ops s (rd insn) (jitValue insn pc s.cpu.x) := by
  unfold emitInsn jitValue at *
  rcases h.cases with h | h | h | h | h | h <;> simp only [h] at hsup ⊢
  case inl => exact Computes.stored (.load h0 (.load h0 (computes_opAlu insn _))) h0 _
  case inr.inl => exact Computes.stored (.load h0 (computes_opImmAlu insn _)) h0 _
  case inr.inr.inl => exact runOps_op32 insn s h0 hsup
  case inr.inr.inr.inl => exact runOps_opImm32 insn s h0 hsup
  case inr.inr.inr.inr.inl => exact (computes_imm s _).stored h0 _
  case inr.inr.inr.inr.inr => exact (computes_imm s _).stored h0 _

end Straight

/-! ## Where the values differ -/

/-- The M instructions whose result is that of the base instruction in all registers, by whether they read `x0`. -/
def mulDivAgrees (f3 : BitVec 3) (z1 z2 : Bool) : Bool :=
  match f3.toNat with
  | 0 | 2 => z1 && z2
  | 1 | 7 => z1
  | 3 | 6 => z2
  | _ => false

def MulDivAgrees (insn : U32) : Prop := mulDivAgrees (funct3 insn) (rs1 insn == 0) (rs2 insn == 0) = true

/-- The accepted words whose block computes something else than the interpreter. -/
def JitMismatch (insn : U32) : Prop :=
  rd insn ≠ 0 ∧
  match (opcode insn).toNat with
  | 0x33 => funct7 insn = 0x01 ∧ ¬ MulDivAgrees insn
  | 0x3B => funct7 insn = 0x01 ∧ (funct3 insn = 5 ∨ funct3 insn = 0 ∧ ¬ (rs1 insn = 0 ∧ rs2 insn = 0))
  | 0x13 => funct3 insn = 5 ∧ funct7 insn >>> 1 ≠ 0 ∧ funct7 insn >>> 1 ≠ 0x10 ∧ rs1 insn ≠ 0 ∧
      (insn.extractLsb' 20 6 : BitVec 6) ≠ 0
  | _ => False

instance (insn : U32) : Decidable (MulDivAgrees insn) := by unfold MulDivAgrees; infer_instance

instance (insn : U32) : Decidable (JitMismatch insn) := by
  unfold JitMismatch
  split <;> infer_instance

theorem mulDiv_agrees {insn : U32} (h : MulDivAgrees insn) {x : BitVec 5 → U64} (h0 : x 0 = 0) :
    aluOp 0 (funct3 insn) (x (rs1 insn)) (x (rs2 insn)) = mulDiv (funct3 insn) (x (rs1 insn)) (x (rs2 insn)) := by
  unfold MulDivAgrees mulDivAgrees at h
  unfold aluOp mulDiv
  simp only [show ¬ (0 : BitVec 7) = 1 by decide, show ¬ (0 : BitVec 7) = 0x20 by decide, if_false]
  generalize (funct3 insn).toNat = n at h
  match n with
  | 0 | 2 =>
    obtain ⟨h1, h2⟩ := Bool.and_eq_true_iff.1 h
    rw [beq_iff_eq.1 h1, beq_iff_eq.1 h2, h0]
    rfl
  | 1 | 7 =>
    rw [beq_iff_eq.1 h, h0]
    simp
  | 3 | 6 =>
    rw [beq_iff_eq.1 h, h0]
    simp [boolWord]
  | 4 | 5 | _ + 8 => cases h

theorem mulDiv32_agrees {insn : U32} (h : ¬ JitMismatch insn) (hop : (opcode insn).toNat = 0x3B) (hrd : rd insn ≠ 0)
    (hm : funct7 insn = 0x01) (hsup : (emitOp32 insn).supported = true) {x : BitVec 5 → U64} (h0 : x 0 = 0) {w : U32}
    (hw : mulDiv32 (funct3 insn) ((x (rs1 insn)).setWidth 32) ((x (rs2 insn)).setWidth 32) = some w) :
    aluOp32 0 (funct3 insn) ((x (rs1 insn)).setWidth 32) ((x (rs2 insn)).setWidth 32) = some w := by
  unfold JitMismatch at h
  simp only [hop] at h
  unfold emitOp32 at hsup
  unfold mulDiv32 at hw
  match hf : (funct3 insn).toNat with
  | 0 =>
    have hf3 : funct3 insn = 0 := BitVec.eq_of_toNat_eq hf
    have hregs : rs1 insn = 0 ∧ rs2 insn = 0 := Decidable.byContradiction fun hn => h ⟨hrd, hm, .inr ⟨hf3, hn⟩⟩
    rw [hf3, hregs.1, hregs.2, h0] at hw ⊢
    exact hw
  | 5 => exact absurd ⟨hrd, hm, .inl (BitVec.eq_of_toNat_eq hf)⟩ h
  | 1 =>
    simp only [hf] at hw
    cases hw
  | 2 | 3 | 4 | _ + 6 =>
    simp only [hf] at hsup
    cases hsup

theorem jitOpImm_eq {insn : U32} (h : ¬ JitMismatch insn) (hop : (opcode insn).toNat = 0x13) (hrd : rd insn ≠ 0)
    {x : BitVec 5 → U64} (h0 : x 0 = 0) : jitOpImm insn (x (rs1 insn)) = aluOpImm insn (x (rs1 insn)) := by
  unfold jitOpImm
  split
  next hsrl =>
    have h5 : (funct3 insn).toNat = 5 := congrArg BitVec.toNat hsrl.1
    unfold aluOpImm
    simp only [h5]
    split
    next hf =>
      have hf7 : funct7 insn >>> 1 ≠ 0x10 := by
        intro h10
        have hshift := funct7_shift insn
        rw [h10] at hshift
        exact hsrl.2 (BitVec.eq_of_toNat_eq hshift.symm)
      unfold JitMismatch at h
      simp only [hop] at h
      by_cases hr : rs1 insn = 0
      · rw [hr, h0]
        simp
      · by_cases hsh : (insn.extractLsb' 20 6 : BitVec 6) = 0
        · simp only [hsh]
          simp
        · exact absurd ⟨hrd, hsrl.1, hf, hf7, hr, hsh⟩ h
    next => rfl
  next => rfl

/-- **Outside the mismatches both decoders write one value.** -/
theorem jitValue_eq {insn : U32} (hi : IntOpcode insn) (h : ¬ JitMismatch insn) (hrd : rd insn ≠ 0) {pc : U64}
    (hsup : (emitInsn insn pc false).supported = true) {x : BitVec 5 → U64} (h0 : x 0 = 0) {v : U64}
    (hv : intValue insn pc x = some v) : jitValue insn pc x = v := by
  unfold intValue at hv
  unfold jitValue
  rcases hi.cases with hop | hop | hop | hop | hop | hop <;> simp only [hop] at hv ⊢
  case inl =>
    cases hv
    by_cases hm : funct7 insn = 0x01
    · have hagree : MulDivAgrees insn := by
        unfold JitMismatch at h
        simp only [hop] at h
        exact Decidable.byContradiction fun hn => h ⟨hrd, hm, hn⟩
      have hb : baseFunct7 insn = 0 := if_pos hm
      rw [hb, mulDiv_agrees hagree h0, hm]
      rfl
    · have hb : baseFunct7 insn = funct7 insn := if_neg hm
      rw [hb]
  case inr.inl =>
    cases hv
    exact jitOpImm_eq h hop hrd h0
  case inr.inr.inl =>
    obtain ⟨w, hw, rfl⟩ := Option.map_eq_some_iff.1 hv
    by_cases hm : funct7 insn = 0x01
    · have hb : baseFunct7 insn = 0 := if_pos hm
      unfold emitInsn at hsup
      simp only [hop] at hsup
      unfold aluOp32 at hw
      rw [if_pos hm] at hw
      rw [hb, mulDiv32_agrees h hop hrd hm hsup h0 hw]
      rfl
    · have hb : baseFunct7 insn = funct7 insn := if_neg hm
      rw [hb, hw]
      rfl
  case inr.inr.inr.inl =>
    obtain ⟨w, hw, rfl⟩ := Option.map_eq_some_iff.1 hv
    rw [hw]
    rfl
  all_goals cases hv; rfl

/-! ## A state that shows a mismatch -/

/-- Every register but `x0` holds `k`. -/
def allRegs (k : U64) : BitVec 5 → U64 := fun r => if r = 0 then 0 else k

/-- The value that tells the two results of an M instruction apart. -/
def mulDivProbe (f3 : BitVec 3) (z1 : Bool) : U64 :=
  match f3.toNat with
  | 2 | 3 => if z1 then 1 else ~~~0
  | 4 | 5 => 0
  | _ => 1

/-- The register value that shows a mismatch. -/
def probe (insn : U32) : U64 :=
  if opcode insn = 0x13 then ~~~0
  else if opcode insn = 0x33 then mulDivProbe (funct3 insn) (rs1 insn == 0)
  else if funct3 insn = 0 then 1 else 0

theorem allRegs_ne {r : BitVec 5} (h : r ≠ 0) (k : U64) : allRegs k r = k := if_neg h

theorem allRegs_eq (k : U64) (r : BitVec 5) : allRegs k r = if r == 0 then 0 else k := by
  simp [allRegs]

theorem mulDiv_differs : ∀ (f3 : BitVec 3) (z1 z2 : Bool), mulDivAgrees f3 z1 z2 = false →
    aluOp 0 f3 (if z1 then 0 else mulDivProbe f3 z1) (if z2 then 0 else mulDivProbe f3 z1) ≠
      mulDiv f3 (if z1 then 0 else mulDivProbe f3 z1) (if z2 then 0 else mulDivProbe f3 z1) := by
  decide

theorem srai_differs : ∀ shamt : BitVec 6, shamt ≠ 0 →
    (~~~0 : U64) >>> shamt ≠ (~~~0 : U64).sshiftRight shamt.toNat := by decide

theorem mulDiv32_differs : ∀ z1 z2 : Bool, (z1 && z2) = false →
    ((if z1 then 0 else 1 : U64).setWidth 32 + (if z2 then 0 else 1 : U64).setWidth 32).signExtend 64 ≠
      ((if z1 then 0 else 1 : U64).setWidth 32 * (if z2 then 0 else 1 : U64).setWidth 32 : U32).signExtend 64 := by
  decide

/-- **A mismatched word that executes writes another value in some registers.** -/
theorem jitValue_differs {insn : U32} (h : JitMismatch insn) (pc : U64) :
    ∃ v, intValue insn pc (allRegs (probe insn)) = some v ∧ jitValue insn pc (allRegs (probe insn)) ≠ v := by
  obtain ⟨-, h⟩ := h
  unfold intValue jitValue
  split at h
  next hop =>
    simp only [hop]
    refine ⟨_, rfl, ?_⟩
    have ho : opcode insn = 0x33 := BitVec.eq_of_toNat_eq hop
    have hb : baseFunct7 insn = 0 := if_pos h.1
    have hp : probe insn = mulDivProbe (funct3 insn) (rs1 insn == 0) := by
      unfold probe
      rw [ho]
      rfl
    rw [hb, h.1, hp]
    simp only [allRegs_eq]
    exact mulDiv_differs _ _ _ (Bool.eq_false_iff.2 h.2)
  next hop =>
    simp only [hop]
    have ho : opcode insn = 0x3B := BitVec.eq_of_toNat_eq hop
    have hb : baseFunct7 insn = 0 := if_pos h.1
    rw [hb, h.1]
    rcases h.2 with h5 | ⟨h0, hz⟩
    · have hp : probe insn = 0 := by
        unfold probe
        rw [ho, h5]
        rfl
      simp only [h5, hp, allRegs_eq, ite_self]
      exact ⟨_, rfl, by decide⟩
    · have hp : probe insn = 1 := by
        unfold probe
        rw [ho, h0]
        rfl
      simp only [h0, hp, allRegs_eq]
      refine ⟨_, rfl, mulDiv32_differs _ _ ?_⟩
      exact Bool.eq_false_iff.2 fun hand => hz (by simpa using hand)
  next hop =>
    simp only [hop]
    refine ⟨_, rfl, ?_⟩
    obtain ⟨h5, hf, hf10, hr, hsh⟩ := h
    have hp : probe insn = ~~~0 := by
      unfold probe
      rw [show opcode insn = 0x13 from BitVec.eq_of_toNat_eq hop]
      rfl
    have hsrl : funct3 insn = 5 ∧ insn >>> 26 ≠ 0x10 := by
      refine ⟨h5, fun h26 => hf10 ?_⟩
      have hshift := funct7_shift insn
      rw [h26] at hshift
      exact BitVec.eq_of_toNat_eq hshift
    rw [hp, allRegs_ne hr]
    unfold jitOpImm aluOpImm
    rw [if_pos hsrl, h5]
    simp only [hf, ne_eq, not_false_eq_true, if_true]
    exact srai_differs _ hsh
  next => cases h

/-! ## Agreement -/

theorem JitMismatch.supported {insn : U32} (h : JitMismatch insn) (pc : U64) :
    (emitInsn insn pc false).supported = true := by
  obtain ⟨-, h⟩ := h
  unfold emitInsn
  split at h
  next hop => simp only [hop]; rfl
  next hop =>
    simp only [hop]
    unfold emitOp32
    rcases h.2 with h5 | ⟨h0, -⟩
    · rw [h5]; rfl
    · rw [h0]; rfl
  next hop => simp only [hop]; rfl
  next => cases h

/-- A machine at reset whose first instruction is `insn`. -/
def cpuWith (insn : U32) (x : BitVec 5 → U64) : Cpu :=
  { rv64Init (Mem.write (fun _ => 0) 0 4 (insn.setWidth 64)) 0x1000 with x := x }

section Agreement

variable [NetDevice]

theorem cpuWith_fetch (insn : U32) (x : BitVec 5 → U64) :
    ∃ v, rv64CpuLoad (cpuWith insn x).pc 4 .exec (checkBreak (cpuWith insn x)) = .ok v (cpuWith insn x) ∧
      v.setWidth 32 = insn := by
  refine ⟨(Mem.write (fun _ => 0) 0 4 (insn.setWidth 64)).read 0 4, ?_, ?_⟩
  · have hbreak : checkBreak (cpuWith insn x) = cpuWith insn x := rfl
    have hmiss : loadFast (cpuWith insn x) ramBase 4 .exec = none := rfl
    rw [hbreak]
    exact rv64CpuLoad_machine rfl hmiss (by decide) (show inRam 0x1000 ramBase = true by decide)
  · exact Mem.read_word _ 0 insn

variable [HostFp]

/-- **A mismatched word disagrees from reset**, in the registers its probe fills. -/
theorem JitMismatch.not_agrees {insn : U32} (hm : JitMismatch insn) (h : IntOpcode insn) : ¬ IntAgrees insn := by
  intro hagree
  obtain ⟨w, hf, hw⟩ := cpuWith_fetch insn (allRegs (probe insn))
  obtain ⟨v, hv, hne⟩ := jitValue_differs hm ramBase
  let s : JState := ⟨cpuWith insn (allRegs (probe insn)), fun _ => 0, 0, false, false, 0⟩
  have hval : intValue insn s.cpu.pc s.cpu.x = some v := hv
  have hx : Executes insn s.cpu := ⟨rfl, ⟨w, _, hf, hw⟩, ⟨_, (stepBody_int h hf hw).trans (by rw [hval])⟩⟩
  have hregs := hagree s rfl (hm.supported _) hx
  obtain ⟨v', hv', hstep⟩ := rv64Step_int h hx
  have hvv : v = v' := Option.some.inj (hv.symm.trans hv')
  obtain ⟨t, hrun, ht⟩ := runOps_int h _ s rfl (hm.supported _)
  rw [hrun, ht, hstep] at hregs
  have hrd := congrFun hregs (rd insn)
  rw [wr_self _ hm.1, wr_self _ hm.1] at hrd
  exact hne (hrd.trans hvv.symm)

/-- **A block computes what the interpreter computes exactly on the words that are no mismatch**: a mismatch reads an
M instruction as its base instruction, or SRAI with another code than 0x10 in bits 31..26 as SRLI. -/
theorem intAgrees_iff (insn : U32) (h : IntOpcode insn) : IntAgrees insn ↔ ¬ JitMismatch insn := by
  constructor
  · intro hagree hm
    exact hm.not_agrees h hagree
  · intro hm s h0 hsup hx
    obtain ⟨v, hv, hstep⟩ := rv64Step_int h hx
    obtain ⟨t, hrun, ht⟩ := runOps_int h _ s h0 hsup
    rw [hrun, ht, hstep]
    by_cases hrd : rd insn = 0
    · rw [hrd, wr_zero h0, wr_zero h0]
    · rw [jitValue_eq h hm hrd hsup h0 hv]

end Agreement

section Instances

local instance agreementNet : NetDevice := NetDevice.silent
local instance agreementFp : HostFp := HostFp.zero

/-- `add x1, x2, x3` agrees. -/
theorem intAgrees_add : IntOpcode 0x003100B3 ∧ IntAgrees 0x003100B3 :=
  ⟨by decide, (intAgrees_iff 0x003100B3 (by decide)).2 (by decide)⟩

/-- `mul x1, x2, x3` does not: the block adds. -/
theorem not_intAgrees_mul : IntOpcode 0x023100B3 ∧ ¬ IntAgrees 0x023100B3 := by
  have hm : JitMismatch 0x023100B3 := by decide
  exact ⟨by decide, hm.not_agrees (by decide)⟩

end Instances

end PgLinux
