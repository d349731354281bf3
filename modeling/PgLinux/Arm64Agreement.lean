import PgLinux.Agreement
import PgLinux.Arm64FastPath
import PgLinux.Arm64Steps
/-!
# Arm64Agreement — the ARM64 code and the interpreter on integer instructions (`rv64_jit.c`)

The compiler tells a shift by bit 30 where `rv64_step` reads the whole of `funct7`, and has no code for a result in x0,
also where there is no such instruction.
-/
namespace PgLinux
namespace Arm64

open A64 (Goes Keeps State)

/-- The compiled words whose code does something else than the interpreter. -/
def ArmMismatch (insn : U32) : Prop :=
  match (opcode insn).toNat with
  | 0x13 => rd insn ≠ 0 ∧ rs1 insn ≠ 0 ∧ funct3 insn = 5 ∧ (insn.extractLsb' 20 6 : BitVec 6) ≠ 0 ∧
      insn.getLsbD 30 ≠ decide (funct7 insn >>> 1 ≠ 0)
  | 0x1B =>
    if rd insn = 0 then aluOpImm32 insn 0 = none
    else rs1 insn ≠ 0 ∧ funct3 insn = 5 ∧ (insn.extractLsb' 20 5 : BitVec 5) ≠ 0 ∧
      insn.getLsbD 30 ≠ decide (funct7 insn = 0x20)
  | 0x3B => rd insn = 0 ∧ aluOp32 (funct7 insn) (funct3 insn) 0 0 = none
  | _ => False

theorem armMismatch_iff (insn : U32) : ArmMismatch insn ↔
    ((opcode insn).toNat = 0x13 ∧ rd insn ≠ 0 ∧ rs1 insn ≠ 0 ∧ funct3 insn = 5 ∧ (insn.extractLsb' 20 6 : BitVec 6) ≠ 0 ∧
      insn.getLsbD 30 ≠ decide (funct7 insn >>> 1 ≠ 0)) ∨
    ((opcode insn).toNat = 0x1B ∧ rd insn = 0 ∧ aluOpImm32 insn 0 = none) ∨
    ((opcode insn).toNat = 0x1B ∧ rd insn ≠ 0 ∧ rs1 insn ≠ 0 ∧ funct3 insn = 5 ∧ (insn.extractLsb' 20 5 : BitVec 5) ≠ 0 ∧
      insn.getLsbD 30 ≠ decide (funct7 insn = 0x20)) ∨
    (opcode insn).toNat = 0x3B ∧ rd insn = 0 ∧ aluOp32 (funct7 insn) (funct3 insn) 0 0 = none := by
  unfold ArmMismatch
  constructor
  · intro hm
    split at hm
    next hop => exact .inl ⟨hop, hm⟩
    next hop =>
      by_cases hrd : rd insn = 0
      · rw [if_pos hrd] at hm
        exact .inr (.inl ⟨hop, hrd, hm⟩)
      · rw [if_neg hrd] at hm
        exact .inr (.inr (.inl ⟨hop, hrd, hm⟩))
    next hop => exact .inr (.inr (.inr ⟨hop, hm⟩))
    next => exact hm.elim
  · rintro (⟨hop, hm⟩ | ⟨hop, hrd, hm⟩ | ⟨hop, hrd, hm⟩ | ⟨hop, hm⟩) <;> simp only [hop]
    · exact hm
    · rwa [if_pos hrd]
    · rwa [if_neg hrd]
    · exact hm

instance (insn : U32) : Decidable (ArmMismatch insn) := decidable_of_iff _ (armMismatch_iff insn).symm

section Agrees

variable [NetDevice] [HostFp]

/-- The words of `insn`, where it is compiled, make of every CPU what the interpreter makes of it. -/
def ArmAgrees (h : Helpers) (insn : U32) : Prop :=
  ∀ (k k' : Compile) (size nextPc : U64) (ws : List U32), Emits (k.insn h insn size) ws (.compiled, k') →
    ∀ (e : Place) (c : Cpu), Separate e c.ram_size → Placed e.base e.ram c →
      ∃ c', execInsn insn k.pc nextPc c = .ok nextPc c' ∧ Does e c c' ws

end Agrees

/-! ## The values -/

theorem shiftW_differs : ∀ shamt : BitVec 5, shamt ≠ 0 →
    ((~~~0 : U64).setWidth 32 : U32) >>> shamt ≠ ((~~~0 : U64).setWidth 32 : U32).sshiftRight shamt.toNat := by decide

theorem signExtend_inj {a b : U32} (h : (a.signExtend 64 : U64) = b.signExtend 64) : a = b := by
  have hint := congrArg BitVec.toInt h
  rw [BitVec.toInt_signExtend_of_le (by decide), BitVec.toInt_signExtend_of_le (by decide)] at hint
  exact BitVec.eq_of_toInt_eq hint

/-- Two choices by tests that differ. -/
theorem ite_differs {α : Type} {p : Prop} [Decidable p] {b : Bool} {x y : α} (hb : b ≠ decide p) (hxy : x ≠ y) :
    (if p then x else y) ≠ if b then x else y := by
  by_cases hp : p
  · rw [decide_eq_true hp] at hb
    rw [if_pos hp, if_neg hb]
    exact hxy
  · rw [decide_eq_false hp] at hb
    rw [if_neg hp, if_pos (by simpa using hb)]
    exact hxy.symm

theorem aluOp32_none {f7 : BitVec 7} {f3 : BitVec 3} (a b a' b' : U32) (h : aluOp32 f7 f3 a b = none) :
    aluOp32 f7 f3 a' b' = none := by
  unfold aluOp32 mulDiv32 at h ⊢
  generalize f3.toNat = n at h ⊢
  split at h
  next hm =>
    rw [if_pos hm]
    split at h
    all_goals first | cases h; done | rfl
  next hm =>
    rw [if_neg hm]
    split at h
    all_goals first | cases h; done | rfl

theorem aluOpImm32_none {insn : U32} (a a' : U32) (h : aluOpImm32 insn a = none) : aluOpImm32 insn a' = none := by
  unfold aluOpImm32 at h ⊢
  generalize (funct3 insn).toNat = n at h ⊢
  dsimp only at h ⊢
  split at h
  all_goals first | cases h; done | rfl

section Values

variable {insn : U32}

/-- **Outside the mismatches the code writes the interpreter's value.** -/
theorem armValue_eq (hi : IntOpcode insn) (hm : ¬ ArmMismatch insn) (hv : verdict insn = .compiled) (pc : U64)
    {x : BitVec 5 → U64} (h0 : x 0 = 0) :
    ∃ v, intValue insn pc x = some v ∧ (rd insn ≠ 0 → armValue insn pc x = some v) := by
  unfold ArmMismatch at hm
  unfold verdict at hv
  unfold intValue armValue
  rcases hi.cases with hop | hop | hop | hop | hop | hop <;> simp only [hop] at hm hv ⊢
  case inl => exact ⟨_, rfl, fun _ => rfl⟩
  case inr.inl =>
    refine ⟨_, rfl, fun hrd => congrArg some ?_⟩
    unfold armOpImm
    by_cases h5 : funct3 insn = 5
    · rw [if_pos h5, aluOpImm_eq h5]
      show _ = if funct7 insn >>> 1 ≠ 0 then _ else _
      by_cases hr : rs1 insn = 0
      · rw [hr, h0]
        simp
      · by_cases hsh : (insn.extractLsb' 20 6 : BitVec 6) = 0
        · rw [hsh]
          simp
        · have hbit : insn.getLsbD 30 = decide (funct7 insn >>> 1 ≠ 0) :=
            Decidable.byContradiction fun hne => hm ⟨hrd, hr, h5, hsh, hne⟩
          rw [hbit]
          simp
    · rw [if_neg h5]
  case inr.inr.inl =>
    cases hval : aluOp32 (funct7 insn) (funct3 insn) ((x (rs1 insn)).setWidth 32) ((x (rs2 insn)).setWidth 32) with
    | some v => exact ⟨_, rfl, fun _ => rfl⟩
    | none =>
      by_cases hrd : rd insn = 0
      · exact absurd ⟨hrd, aluOp32_none _ _ 0 0 hval⟩ hm
      · obtain ⟨_, f, -, hsome, -⟩ := computes_op32 hrd (ofBool_compiled hv)
        rw [hsome] at hval
        cases hval
  case inr.inr.inr.inl =>
    by_cases hrd : rd insn = 0
    · rw [if_pos hrd] at hm
      cases hval : aluOpImm32 insn ((x (rs1 insn)).setWidth 32) with
      | some v => exact ⟨_, rfl, fun h => absurd hrd h⟩
      | none => exact absurd (aluOpImm32_none _ 0 hval) hm
    · rw [if_neg hrd] at hm
      obtain ⟨_, f, -, hsome, -⟩ := computes_opImm32 insn hrd (ofBool_compiled hv)
      have heq : armOpImm32 insn ((x (rs1 insn)).setWidth 32) = aluOpImm32 insn ((x (rs1 insn)).setWidth 32) := by
        unfold armOpImm32
        by_cases h5 : funct3 insn = 5
        · rw [if_pos h5]
          unfold aluOpImm32
          rw [h5]
          show _ = some (if funct7 insn = 0x20 then _ else _)
          by_cases hr : rs1 insn = 0
          · rw [hr, h0]
            simp
          · by_cases hsh : (insn.extractLsb' 20 5 : BitVec 5) = 0
            · rw [hsh]
              simp
            · have hbit : insn.getLsbD 30 = decide (funct7 insn = 0x20) :=
                Decidable.byContradiction fun hne => hm ⟨hr, h5, hsh, hne⟩
              rw [hbit]
              simp
        · rw [if_neg h5]
      rw [← heq, hsome]
      exact ⟨_, rfl, fun _ => rfl⟩
  all_goals exact ⟨_, rfl, fun _ => rfl⟩

/-- **A mismatched word**: the interpreter traps, or it writes another value where `rs1` holds all ones. -/
theorem armValue_differs (hm : ArmMismatch insn) (pc : U64) (x : BitVec 5 → U64) (hx : rs1 insn ≠ 0 → x (rs1 insn) = ~~~0) :
    intValue insn pc x = none ∨
      rd insn ≠ 0 ∧ ∃ v w, intValue insn pc x = some v ∧ armValue insn pc x = some w ∧ v ≠ w := by
  unfold intValue armValue
  rcases (armMismatch_iff insn).1 hm with ⟨hop, hrd, hr, h5, hsh, hbit⟩ | ⟨hop, -, hnone⟩ |
      ⟨hop, hrd, hr, h5, hsh, hbit⟩ | ⟨hop, -, hnone⟩ <;> simp only [hop]
  · refine .inr ⟨hrd, _, _, rfl, rfl, ?_⟩
    rw [hx hr, aluOpImm_eq h5]
    unfold armOpImm
    rw [if_pos h5]
    exact ite_differs hbit (srai_differs _ hsh).symm
  · refine .inl ?_
    rw [aluOpImm32_none 0 _ hnone]
    rfl
  · have hint : ∀ a, aluOpImm32 insn a = some (if funct7 insn = 0x20 then
        a.sshiftRight (insn.extractLsb' 20 5 : BitVec 5).toNat else a >>> (insn.extractLsb' 20 5 : BitVec 5)) := by
      intro a
      unfold aluOpImm32
      rw [h5]
      rfl
    rw [hx hr, hint, armOpImm32_shift h5]
    refine .inr ⟨hrd, _, _, rfl, rfl, fun he => ?_⟩
    exact ite_differs hbit (shiftW_differs _ hsh).symm (signExtend_inj he)
  · refine .inl ?_
    rw [aluOp32_none 0 0 _ _ hnone]
    rfl

theorem ArmMismatch.compiled (hm : ArmMismatch insn) : verdict insn = .compiled := by
  unfold verdict
  rcases (armMismatch_iff insn).1 hm with ⟨hop, -⟩ | ⟨hop, hrd, -⟩ | ⟨hop, hrd, -, h5, -⟩ | ⟨hop, hrd, -⟩ <;>
    simp only [hop]
  · unfold opImm32Compiles
    rw [if_pos hrd]
    rfl
  · unfold opImm32Compiles
    rw [if_neg hrd, h5]
    rfl
  · unfold op32Compiles
    rw [if_pos hrd]
    rfl

end Values

/-! ## Code that leads to two CPUs -/

theorem Emits.unique {α : Type} {m : Emit α} {ws vs : List U32} {a b : α} (h : Emits m ws a) (h' : Emits m vs b) :
    ws = vs ∧ a = b := by
  let j : CodeBuf := ⟨[], ws.length + vs.length, 0, false, false⟩
  have heq : (a, j.pushAll ws) = (b, j.pushAll vs) := (h j).symm.trans (h' j)
  have hbuf := (CodeBuf.pushAll_room ws j (by show 0 + ws.length ≤ ws.length + vs.length; omega)).1
  have hbuf' := (CodeBuf.pushAll_room vs j (by show 0 + vs.length ≤ ws.length + vs.length; omega)).1
  have hcode := congrArg (fun r => r.2.code_buf) heq
  have hfst := congrArg Prod.fst heq
  rw [hbuf, hbuf'] at hcode
  exact ⟨hcode, hfst⟩

theorem Does.unique {e : Place} {c c' c'' : Cpu} {ws : List U32} {s : State} (hcpu : s.x 19 = e.base)
    (hrep : Represents e.base e.ram s.mem c) (h : Does e c c' ws) (h' : Does e c c'' ws) : c'.x = c''.x := by
  obtain ⟨s1, hgo, -, hrep1⟩ := h s hcpu hrep
  obtain ⟨s2, hgo', -, hrep2⟩ := h' s hcpu hrep
  rw [← A64.Goes.unique hgo hgo'] at hrep2
  funext i
  exact (hrep1.x i).symm.trans (hrep2.x i)

/-- What is compiled has that verdict. -/
theorem compiled_verdict {h : Helpers} {k k' : Compile} {insn : U32} {size : U64} {ws : List U32}
    (hemit : Emits (k.insn h insn size) ws (.compiled, k')) : verdict insn = .compiled := by
  let j : CodeBuf := ⟨[], insnWords h ⟨k.pc, insn, size⟩, 0, false, false⟩
  have hanswer := ((writes_insn h k insn size : Writes j.code_capacity _ _ _) j rfl (Nat.zero_le _)).2.1
  rw [hemit j] at hanswer
  exact hanswer.symm

/-! ## A CPU that shows it -/

def onesPlace : Place := ⟨cpuBase, ramStart, 0⟩

/-- The register `i` holds all ones, the others zero. -/
def onesCpu (i : BitVec 5) : Cpu := (kernelPageCpu privS).wr i (~~~0)

def onesMem (i : BitVec 5) : Mem :=
  if i = 0 then kernelPageMem else kernelPageMem.write (byteAt cpuBase (8 * i.toNat)) 8 (~~~0)

theorem onesCpu_separate (i : BitVec 5) : Separate onesPlace (onesCpu i).ram_size := by
  have hoff : CpuLayout.offExec = 1659976 := by decide +kernel
  constructor
  · intro n p hn hp
    have hsize : p < 0x1000 := hp
    show byteAt cpuBase n ≠ ramStart + p
    unfold byteAt cpuBase ramStart
    bv_omega
  · intro k n hk hn
    show byteAt 0 k ≠ byteAt cpuBase n
    unfold byteAt cpuBase
    bv_omega
  · intro k p hk hp
    have hsize : p < 0x1000 := hp
    show byteAt 0 k ≠ ramStart + p
    unfold byteAt ramStart
    bv_omega
  · intro p hp
    have hsize : p < 0x1000 := hp
    show ramStart + p ≠ 0
    unfold ramStart
    bv_omega

theorem onesCpu_placed (i : BitVec 5) : Placed cpuBase ramStart (onesCpu i) :=
  have h := kernelPage_placed privS
  ⟨h.apart, h.nonNull, rfl, h.pages⟩

theorem onesMem_represents (i : BitVec 5) : Represents cpuBase ramStart (onesMem i) (onesCpu i) := by
  have hp := kernelPage_placed privS
  unfold onesMem onesCpu
  by_cases hi : i = 0
  · rw [if_pos hi, hi, wr_zero hp.zero]
    exact kernelPage_represents privS
  · rw [if_neg hi]
    exact (kernelPage_represents privS).setReg hp hi _

/-! ## Agreement -/

section Agreement

variable [NetDevice] [HostFp]

/-- **The code of an integer instruction does what the interpreter does exactly where the word is no mismatch**: a
mismatch is a shift right that bit 30 and `funct7` tell differently, or an illegal OP-32 or OP-IMM-32 on x0. -/
theorem armAgrees_iff (h : Helpers) {insn : U32} (hi : IntOpcode insn) : ArmAgrees h insn ↔ ¬ ArmMismatch insn := by
  have hplain : (opcode insn).toNat ≠ 0x0F ∧ (opcode insn).toNat ≠ 0x6F ∧ (opcode insn).toNat ≠ 0x67 := by
    rcases hi.cases with hop | hop | hop | hop | hop | hop <;> rw [hop] <;> decide
  have hload : opcode insn ≠ 0x03 ∧ opcode insn ≠ 0x23 := by
    constructor <;> intro he <;> rcases hi.cases with hop | hop | hop | hop | hop | hop <;> rw [he] at hop <;> cases hop
  have harm : ∀ (t : GuestInsn) (c : Cpu), t.insn = insn →
      armPlain t c = c.wr (rd insn) ((armValue insn t.pc c.x).getD 0) := by
    rintro ⟨pc, _, size⟩ c rfl
    unfold armPlain
    split
    next hop => exact absurd hop hplain.1
    next hop => exact absurd hop hplain.2.1
    next hop => exact absurd hop hplain.2.2
    next => rfl
  constructor
  · intro hagree hm
    let k := Compile.start 0
    let c := onesCpu (rs1 insn)
    obtain ⟨ws, hemit, hdoes⟩ := compiles_plain h k 4 hm.compiled hload.1 hload.2
    obtain ⟨c', hexec, hdoes'⟩ := hagree k _ 4 4 ws hemit onesPlace c (onesCpu_separate _) (onesCpu_placed _)
    have hones : rs1 insn ≠ 0 → c.x (rs1 insn) = ~~~0 := fun hr => wr_self _ hr _
    rw [execInsn_int hi] at hexec
    rcases armValue_differs hm k.pc c.x hones with hnone | ⟨hrd, v, w, hv, hw, hne⟩
    · rw [hnone] at hexec
      cases hexec
    · rw [hv] at hexec
      cases hexec
      let s : State := ⟨fun r => if r = 19 then cpuBase else 0, 0, false, false, false, false, onesMem (rs1 insn)⟩
      have hdo := hdoes onesPlace c (onesCpu_separate _) (onesCpu_placed _)
      rw [harm ⟨k.pc, insn, 4⟩ c rfl, hw] at hdo
      have hx := congrFun (hdoes'.unique (s := s) rfl (onesMem_represents _) hdo) (rd insn)
      rw [wr_self _ hrd, wr_self _ hrd] at hx
      exact hne hx
  · intro hm k k' size nextPc ws hemit e c hsep hp
    have hv : verdict insn = .compiled := compiled_verdict hemit
    obtain ⟨vs, hemit', hdoes⟩ := compiles_plain h k size hv hload.1 hload.2
    obtain ⟨v, hval, harmv⟩ := armValue_eq hi hm hv k.pc hp.zero
    obtain ⟨rfl, -⟩ := hemit.unique hemit'
    refine ⟨c.wr (rd insn) v, ?_, (hdoes e c hsep hp).congr ?_⟩
    · rw [execInsn_int hi, hval]
    · rw [harm ⟨k.pc, insn, size⟩ c rfl]
      by_cases hrd : rd insn = 0
      · rw [hrd, wr_zero hp.zero, wr_zero hp.zero]
      · rw [harmv hrd]
        rfl

end Agreement

section Instances

local instance armNet : NetDevice := NetDevice.silent
local instance armFp : HostFp := HostFp.zero

/-- `srai x1, x1, 1`, and the same word with bits 31..26 = 4, which `rv64_step` takes for it and the compiler for `srli`. -/
theorem armAgrees_srai : IntOpcode 0x4010D093 ∧ ArmAgrees highHelpers 0x4010D093 ∧ IntOpcode 0x1010D093 ∧
    ¬ ArmAgrees highHelpers 0x1010D093 := by
  have hm : ArmMismatch 0x1010D093 := by decide
  exact ⟨by decide, (armAgrees_iff highHelpers (by decide)).2 (by decide), by decide,
    fun h => (armAgrees_iff highHelpers (by decide)).1 h hm⟩

end Instances

end Arm64
end PgLinux
