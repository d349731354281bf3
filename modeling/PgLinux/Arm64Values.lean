import PgLinux.Agreement
import PgLinux.Arm64Costs
import PgLinux.Arm64Runs
import PgLinux.Lib.A64Routine
/-!
# Arm64Values — what compiled integer instructions compute (`rv64_jit.c`)

The operands are loaded into x0 and x1, the result is computed in x0 and stored in the guest register.  Shifts by a constant
tell the arithmetic from the logical one by bit 30 alone.
-/
namespace PgLinux
namespace Arm64

open A64 (Goes Keeps Op State decode decodeOp execOp)

/-! ## Code that computes -/

/-- The code leaves `f` of x0 and x1 in x0, and the rest but x1 alone. -/
def Computes (ws : List U32) (f : U64 → U64 → U64) : Prop :=
  ∀ s, ∃ s', Goes ws s s' ∧ Keeps [0, 1] s s' ∧ s'.x 0 = f (s.x 0) (s.x 1)

theorem Computes.congr {ws : List U32} {f g : U64 → U64 → U64} (h : Computes ws f) (e : ∀ a b, f a b = g a b) :
    Computes ws g := by
  intro s
  obtain ⟨s', hgo, hkeeps, hx⟩ := h s
  exact ⟨s', hgo, hkeeps, hx.trans (e _ _)⟩

theorem computes_nil : Computes [] fun a _ => a := fun s => ⟨s, A64.goes_nil s, ⟨fun _ _ => rfl, rfl, rfl⟩, rfl⟩

theorem computes_one {w : U32} {i : Op} {f : U64 → U64 → U64} (hw : decodeOp w = some i)
    (hi : ∀ s, execOp s i = .next (s.set 0 (f (s.x 0) (s.x 1)))) : Computes [w] f := by
  intro s
  refine ⟨s.set 0 (f (s.x 0) (s.x 1)), A64.goes_op hw (hi s), A64.keeps_set (by decide) (by decide), ?_⟩
  rw [A64.set_x (by decide), if_pos rfl]

/-- A word that computes from what is in x0 after other code. -/
theorem Computes.then {ws vs : List U32} {f g : U64 → U64 → U64} (h : Computes ws f) (h' : Computes vs g)
    (hg : ∀ a b b', g a b = g a b') : Computes (ws ++ vs) fun a b => g (f a b) b := by
  intro s
  obtain ⟨s1, hgo, hkeeps, hx⟩ := h s
  obtain ⟨s2, hgo', hkeeps', hx'⟩ := h' s1
  exact ⟨s2, hgo.lands hgo', hkeeps.trans hkeeps', by rw [hx', hx, hg]⟩

/-- A constant in x1 first. -/
theorem Computes.withImm {ws : List U32} {f : U64 → U64 → U64} (h : Computes ws f) (imm : U64) :
    Computes (movImm 1 imm ++ ws) fun a _ => f a imm := by
  intro s
  have hmov : Goes (movImm 1 imm) s (s.set 1 imm) := (straight_movImm 1 (by decide) imm s).goes
  obtain ⟨s', hgo, hkeeps, hx⟩ := h (s.set 1 imm)
  refine ⟨s', hmov.lands hgo, (A64.keeps_set (by decide) (by decide)).trans hkeeps, ?_⟩
  rw [hx, A64.set_x (by decide), A64.set_x (by decide), if_neg (by decide), if_pos rfl]

/-- `CMP x0, x1` and `CSET x0`. -/
theorem computes_cset {w : U32} {cond : BitVec 4} {f : U64 → U64 → Bool} (hw : decodeOp w = some (.csinc cond 31 31 0))
    (hcond : ∀ (s : State) a b, (s.compare a b).holds cond = !f a b) : Computes [cmpWord 0 1, w] fun a b => boolWord (f a b) := by
  have hcmp : decodeOp (cmpWord 0 1) = some (.base (.subs 1 0 31)) := by decide
  intro s
  let s1 := s.compare (s.x 0) (s.x 1)
  have hset : execOp s1 (.csinc cond 31 31 0) = .next (s1.set 0 (boolWord (f (s.x 0) (s.x 1)))) := by
    show A64.Outcome.next (s1.set 0 (if s1.holds cond then 0 else 0 + 1)) = _
    rw [hcond]
    cases f (s.x 0) (s.x 1) <;> rfl
  refine ⟨_, A64.Goes.op hcmp rfl (A64.goes_op hw hset),
    A64.keeps_compare.trans (A64.keeps_set (by decide) (by decide)), ?_⟩
  rw [A64.set_x (by decide), if_pos rfl]

/-! ## Shift amounts -/

theorem shift64 (b : U64) : (b &&& 0x3F).toNat = b.toNat % 64 := by
  rw [BitVec.toNat_and]
  exact Nat.and_two_pow_sub_one_eq_mod b.toNat 6

theorem shift32 (b : U32) : (b &&& 0x1F).toNat = b.toNat % 32 := by
  rw [BitVec.toNat_and]
  exact Nat.and_two_pow_sub_one_eq_mod b.toNat 5

/-! ## Register operations -/

theorem computes_opM {f3 : BitVec 3} (h : f3 = 0 ∨ f3 = 1 ∨ f3 = 3) :
    ∃ ws, Emits (jitOpM f3) ws true ∧ Computes ws (aluOp 1 f3) := by
  rcases h with rfl | rfl | rfl
  · exact ⟨[0x9B017C00], fun _ => rfl, computes_one (i := .alu .mul 1 0 0) (by decide) fun _ => rfl⟩
  · exact ⟨[0x9B417C00], fun _ => rfl, computes_one (i := .smulh 1 0 0) (by decide) fun _ => rfl⟩
  · exact ⟨[0x9BC17C00], fun _ => rfl, computes_one (i := .umulh 1 0 0) (by decide) fun _ => rfl⟩

theorem decode_alu : decodeOp 0x8B010000 = some (.base (.add 1 0 0)) ∧ decodeOp 0xCB010000 = some (.alu .sub 1 0 0) ∧
    decodeOp 0x9AC12000 = some (.alu .lslv 1 0 0) ∧ decodeOp 0x9AC12400 = some (.alu .lsrv 1 0 0) ∧
    decodeOp 0x9AC12800 = some (.alu .asrv 1 0 0) ∧ decodeOp 0xCA010000 = some (.alu .eor 1 0 0) ∧
    decodeOp 0xAA010000 = some (.base (.orr 1 0 0)) ∧ decodeOp 0x8A010000 = some (.alu .and 1 0 0) ∧
    decodeOp (0x9A9F07E0 ||| condGE <<< 12 ||| 0) = some (.csinc 10 31 31 0) ∧
    decodeOp (0x9A9F07E0 ||| condHS <<< 12 ||| 0) = some (.csinc 2 31 31 0) := by decide

theorem computes_slt : Computes [cmpWord 0 1, 0x9A9F07E0 ||| condGE <<< 12 ||| 0] fun a b => boolWord (a.slt b) :=
  computes_cset decode_alu.2.2.2.2.2.2.2.2.1 A64.compare_ge

theorem computes_sltu : Computes [cmpWord 0 1, 0x9A9F07E0 ||| condHS <<< 12 ||| 0] fun a b => boolWord (decide (a < b)) := by
  refine computes_cset decode_alu.2.2.2.2.2.2.2.2.2 fun s a b => ?_
  rw [A64.compare_hs, ← decide_not]
  exact decide_eq_decide.2 BitVec.not_lt.symm

theorem computes_opBase {f3 : BitVec 3} {f7 : BitVec 7} (h1 : f7 ≠ 1) (h : f3 = 0 ∨ f3 = 5 → f7 = 0 ∨ f7 = 0x20) :
    ∃ ws, Emits (jitOpBase f3 f7) ws true ∧ Computes ws (aluOp f7 f3) := by
  obtain ⟨hadd, hsub, hlsl, hlsr, hasr, heor, horr, hand, -⟩ := decode_alu
  have hbase : ∀ {ws : List U32} {f : U64 → U64 → U64}, Computes ws f → (∀ a b, f a b = aluOp f7 f3 a b) →
      Computes ws (aluOp f7 f3) := fun hc e => hc.congr e
  rcases funct3_cases f3 with rfl | rfl | rfl | rfl | rfl | rfl | rfl | rfl
  · rcases h (.inl rfl) with rfl | rfl
    · exact ⟨[_], fun _ => rfl, (computes_one hadd fun _ => rfl).congr fun _ _ => rfl⟩
    · exact ⟨[_], fun _ => rfl, (computes_one hsub fun _ => rfl).congr fun _ _ => rfl⟩
  · refine ⟨[0x9AC12000], fun _ => rfl, hbase (computes_one (f := fun a b => a <<< (b.toNat % 64)) hlsl fun _ => rfl) fun a b => ?_⟩
    rw [aluOp, if_neg h1]
    show a <<< (b.toNat % 64) = a <<< (b &&& 0x3F)
    rw [BitVec.shiftLeft_eq', shift64]
  · exact ⟨_, fun _ => rfl, hbase computes_slt fun _ _ => (if_neg h1).symm⟩
  · exact ⟨_, fun _ => rfl, hbase computes_sltu fun _ _ => (if_neg h1).symm⟩
  · exact ⟨[_], fun _ => rfl, hbase (computes_one (f := (· ^^^ ·)) heor fun _ => rfl) fun _ _ => (if_neg h1).symm⟩
  · rcases h (.inr rfl) with rfl | rfl
    · refine ⟨[_], fun _ => rfl, (computes_one (f := fun a b => a >>> (b.toNat % 64)) hlsr fun _ => rfl).congr fun a b => ?_⟩
      show a >>> (b.toNat % 64) = a >>> (b &&& 0x3F)
      rw [BitVec.ushiftRight_eq', shift64]
    · refine ⟨[_], fun _ => rfl, (computes_one (f := fun a b => a.sshiftRight (b.toNat % 64)) hasr fun _ => rfl).congr fun a b => ?_⟩
      show a.sshiftRight (b.toNat % 64) = a.sshiftRight (b &&& 0x3F).toNat
      rw [shift64]
  · exact ⟨[_], fun _ => rfl, hbase (computes_one horr fun _ => rfl) fun _ _ => (if_neg h1).symm⟩
  · exact ⟨[_], fun _ => rfl, hbase (computes_one hand fun _ => rfl) fun _ _ => (if_neg h1).symm⟩

/-! ## Constant operands -/

/-- A 12-bit constant is added or, when it is negative, its opposite subtracted. -/
theorem addSimm_cases (rd rn : U32) (v : BitVec 12) :
    (addSimm rd rn (v.signExtend 64) = addImm12Word rd rn (v.setWidth 32) ∧ v.signExtend 64 = v.setWidth 64) ∨
      (addSimm rd rn (v.signExtend 64) = subImm12Word rd rn ((-v).setWidth 32) ∧ v.signExtend 64 = -(-v).setWidth 64) := by
  have hext := signExtend12_toNat v
  have hlt := v.isLt
  have hneg := BitVec.toNat_neg v
  unfold addSimm
  by_cases hv : v.toNat < 2048
  · rw [if_pos hv] at hext
    have hpos : 0 ≤ (v.signExtend 64).toInt := by
      rw [BitVec.toInt_eq_toNat_cond, if_pos (by omega)]
      omega
    have hnarrow : (v.signExtend 64).setWidth 32 = v.setWidth 32 := by
      apply BitVec.eq_of_toNat_eq
      rw [BitVec.toNat_setWidth, BitVec.toNat_setWidth, hext]
    have hwide : v.signExtend 64 = v.setWidth 64 := by
      apply BitVec.eq_of_toNat_eq
      rw [hext, BitVec.toNat_setWidth, Nat.mod_eq_of_lt (by omega)]
    rw [if_pos hpos, hnarrow]
    exact .inl ⟨rfl, hwide⟩
  · rw [if_neg hv] at hext
    have hpos : ¬ 0 ≤ (v.signExtend 64).toInt := by
      rw [BitVec.toInt_eq_toNat_cond, if_neg (by omega)]
      omega
    have hnarrow : (-(v.signExtend 64)).setWidth 32 = (-v).setWidth 32 := by
      apply BitVec.eq_of_toNat_eq
      rw [BitVec.toNat_setWidth, BitVec.toNat_neg, hext, BitVec.toNat_setWidth, hneg]
      omega
    have hwide : v.signExtend 64 = -(-v).setWidth 64 := by
      apply BitVec.eq_of_toNat_eq
      rw [hext, BitVec.toNat_neg, BitVec.toNat_setWidth, hneg]
      omega
    rw [if_neg hpos, hnarrow]
    exact .inr ⟨rfl, hwide⟩

theorem computes_addSimm (v : BitVec 12) : Computes [addSimm 0 0 (v.signExtend 64)] fun a _ => a + v.signExtend 64 := by
  have hadd := decode_addImm v (n := 0) (t := 0) (by unfold ImmFields; decide)
  have hsub := decode_subImm (-v) (n := 0) (t := 0) (by unfold ImmFields; decide)
  rcases addSimm_cases 0 0 v with ⟨hw, hv⟩ | ⟨hw, hv⟩
  · rw [hw, hv]
    exact computes_one (f := fun a _ => a + v.setWidth 64) (A64.decodeOp_base hadd) fun _ => rfl
  · rw [hw, hv]
    refine (computes_one (f := fun a _ => a - (-v).setWidth 64) (A64.decodeOp_base hsub) fun _ => rfl).congr fun a _ => ?_
    exact BitVec.sub_eq_add_neg ..

theorem shamt6_eq (insn : U32) : shamt6 insn = (insn.extractLsb' 20 6 : BitVec 6).setWidth 32 := by
  apply BitVec.eq_of_toNat_eq
  have hlt := insn.isLt
  have hand : (insn >>> 20 &&& 0x3F).toNat = (insn >>> 20).toNat % 64 := by
    rw [BitVec.toNat_and]
    exact Nat.and_two_pow_sub_one_eq_mod _ 6
  unfold shamt6
  rw [hand, BitVec.toNat_setWidth, BitVec.extractLsb'_toNat, BitVec.toNat_ushiftRight]
  omega

theorem shamt6_zero {insn : U32} : shamt6 insn = 0 ↔ (insn.extractLsb' 20 6 : BitVec 6) = 0 := by
  rw [shamt6_eq]
  generalize (insn.extractLsb' 20 6 : BitVec 6) = k
  revert k
  decide

/-- The words of shifts by `k`. -/
theorem decode_shift : ∀ k : BitVec 6, k ≠ 0 →
    decode (0xD3400000 ||| ((64 - k.setWidth 32) &&& 63) <<< 16 ||| (63 - k.setWidth 32) <<< 10) =
      some (.ubfm (-k) (63 - k) 0 0) ∧
    decode (0xD340FC00 ||| k.setWidth 32 <<< 16) = some (.ubfm k 63 0 0) ∧
    decode (0x9340FC00 ||| k.setWidth 32 <<< 16) = some (.sbfm k 63 0 0) ∧
    (-k).toNat = 64 - k.toNat ∧ (63 - k).toNat = 63 - k.toNat := by decide

/-- SRAI is told by bit 30. -/
def armOpImm (insn : U32) (src : U64) : U64 :=
  let shamt : BitVec 6 := insn.extractLsb' 20 6
  if funct3 insn = 5 then if insn.getLsbD 30 then src.sshiftRight shamt.toNat else src >>> shamt else aluOpImm insn src

theorem aluOpImm_eq {insn : U32} {f3 : BitVec 3} (h : funct3 insn = f3) (src : U64) : aluOpImm insn src =
    match f3.toNat with
    | 0 => src + immI insn
    | 1 => src <<< (insn.extractLsb' 20 6 : BitVec 6)
    | 2 => boolWord (src.slt (immI insn))
    | 3 => boolWord (decide (src < immI insn))
    | 4 => src ^^^ immI insn
    | 5 => if funct7 insn >>> 1 ≠ 0 then src.sshiftRight (insn.extractLsb' 20 6 : BitVec 6).toNat
      else src >>> (insn.extractLsb' 20 6 : BitVec 6)
    | 6 => src ||| immI insn
    | _ => src &&& immI insn := by
  subst h
  rfl

theorem emits_shift (shamt w : U32) : Emits (do if shamt ≠ 0 then emit w) (if shamt = 0 then [] else [w]) () := by
  by_cases h : shamt = 0
  · rw [if_pos h, if_neg (not_not.2 h)]
    exact emits_pure ()
  · rw [if_neg h, if_pos h]
    exact emits_emit w

theorem computes_lsl (k : BitVec 6) (hk : k ≠ 0) :
    Computes [0xD3400000 ||| ((64 - k.setWidth 32) &&& 63) <<< 16 ||| (63 - k.setWidth 32) <<< 10] fun a _ => a <<< k := by
  obtain ⟨hdecode, -, -, himmr, himms⟩ := decode_shift k hk
  have hpos : 0 < k.toNat := Nat.pos_of_ne_zero fun e => hk (BitVec.eq_of_toNat_eq e)
  refine (computes_one (f := fun a _ => A64.ubfm (-k).toNat (63 - k).toNat a) (A64.decodeOp_base hdecode)
    fun _ => rfl).congr fun a _ => ?_
  show A64.ubfm (-k).toNat (63 - k).toNat a = _
  rw [himmr, himms, A64.ubfm_lsl a hpos k.isLt, BitVec.shiftLeft_eq']

theorem computes_lsr (k : BitVec 6) (hk : k ≠ 0) : Computes [0xD340FC00 ||| k.setWidth 32 <<< 16] fun a _ => a >>> k := by
  refine (computes_one (f := fun a _ => A64.ubfm k.toNat 63 a) (A64.decodeOp_base (decode_shift k hk).2.1)
    fun _ => rfl).congr fun a _ => ?_
  exact (A64.ubfm_lsr a k.isLt).trans (BitVec.ushiftRight_eq' ..).symm

theorem computes_asr (k : BitVec 6) (hk : k ≠ 0) :
    Computes [0x9340FC00 ||| k.setWidth 32 <<< 16] fun a _ => a.sshiftRight k.toNat :=
  (computes_one (f := fun a _ => A64.sbfm k.toNat 63 a) (A64.decodeOp_base (decode_shift k hk).2.2.1)
    fun _ => rfl).congr fun a _ => A64.sbfm_asr a k.isLt

theorem computes_logic : Computes [0xCA010000] (· ^^^ ·) ∧ Computes [0xAA010000] (· ||| ·) ∧ Computes [0x8A010000] (· &&& ·) := by
  obtain ⟨-, -, -, -, -, heor, horr, hand, -⟩ := decode_alu
  exact ⟨computes_one heor fun _ => rfl, computes_one horr fun _ => rfl, computes_one hand fun _ => rfl⟩

theorem computes_opImm (insn : U32) :
    ∃ ws, Emits (emitOpImm insn (funct3 insn)) ws () ∧ Computes ws fun a _ => armOpImm insn a := by
  obtain ⟨heor, horr, hand⟩ := computes_logic
  have hshift : ∀ {w : U32} {f : U64 → U64}, (∀ a, (insn.extractLsb' 20 6 : BitVec 6) = 0 → f a = a) →
      ((insn.extractLsb' 20 6 : BitVec 6) ≠ 0 → Computes [w] fun a _ => f a) →
      Computes (if shamt6 insn = 0 then [] else [w]) fun a _ => f a := by
    intro w f hzero hw
    by_cases h : shamt6 insn = 0
    · rw [if_pos h]
      exact computes_nil.congr fun a _ => (hzero a (shamt6_zero.1 h)).symm
    · rw [if_neg h]
      exact hw fun e => h (shamt6_zero.2 e)
  have himm : ∀ {w : U32} {f : U64 → U64 → U64}, Computes [w] f → Emits (do emitMovImm64 1 (immI insn); emit w)
      (movImm 1 (immI insn) ++ [w]) () ∧ Computes (movImm 1 (immI insn) ++ [w]) fun a _ => f a (immI insn) :=
    fun hc => ⟨(emits_movImm64 1 _).bind (emits_emit _), hc.withImm _⟩
  generalize hf : funct3 insn = f3
  have hbase : f3 ≠ 5 → ∀ a, armOpImm insn a = aluOpImm insn a := fun h5 a => if_neg (hf ▸ h5)
  rcases funct3_cases f3 with rfl | rfl | rfl | rfl | rfl | rfl | rfl | rfl
  · refine ⟨_, emits_addSimm 0 0 _, (computes_addSimm _).congr fun a _ => ?_⟩
    rw [hbase (by decide), aluOpImm_eq hf]
    rfl
  · refine ⟨_, emits_shift _ _, hshift (fun a hz => ?_) fun hne => ?_⟩
    · rw [hbase (by decide), aluOpImm_eq hf]
      show a <<< (insn.extractLsb' 20 6 : BitVec 6) = a
      rw [hz]
      exact BitVec.shiftLeft_zero a
    · rw [shamt6_eq]
      refine (computes_lsl _ hne).congr fun a _ => ?_
      rw [hbase (by decide), aluOpImm_eq hf]
      rfl
  · refine ⟨_, (emits_movImm64 1 _).bind ((emits_emit _).bind (emits_emit _)), (computes_slt.withImm _).congr fun a _ => ?_⟩
    rw [hbase (by decide), aluOpImm_eq hf]
    rfl
  · refine ⟨_, (emits_movImm64 1 _).bind ((emits_emit _).bind (emits_emit _)), (computes_sltu.withImm _).congr fun a _ => ?_⟩
    rw [hbase (by decide), aluOpImm_eq hf]
    rfl
  · have hxor : ∀ a, armOpImm insn a = a ^^^ immI insn := fun a => by
      rw [hbase (by decide), aluOpImm_eq hf]
      rfl
    by_cases hall : immI insn = ~~~0
    · have horn : decodeOp 0xAA2003E0 = some (.alu .orn 0 31 0) := by decide
      refine ⟨[0xAA2003E0], ?_, (computes_one (f := fun a _ => 0 ||| ~~~a) horn fun _ => rfl).congr fun a _ => ?_⟩
      · show Emits (if immI insn = ~~~0 then _ else _) _ _
        rw [if_pos hall]
        exact emits_emit _
      · rw [hxor, hall]
        exact BitVec.zero_or.trans BitVec.xor_allOnes.symm
    · refine ⟨_, ?_, (himm heor).2.congr fun a _ => (hxor a).symm⟩
      show Emits (if immI insn = ~~~0 then _ else _) _ _
      rw [if_neg hall]
      exact (himm heor).1
  · have hsra : ∀ a, armOpImm insn a = if insn.getLsbD 30 then a.sshiftRight (insn.extractLsb' 20 6 : BitVec 6).toNat
        else a >>> (insn.extractLsb' 20 6 : BitVec 6) := fun a => if_pos hf
    refine ⟨if shamt6 insn = 0 then [] else
      [if insn.getLsbD 30 then 0x9340FC00 ||| shamt6 insn <<< 16 else 0xD340FC00 ||| shamt6 insn <<< 16], ?_, ?_⟩
    · have hemit := emits_shift (shamt6 insn)
        (if insn.getLsbD 30 then 0x9340FC00 ||| shamt6 insn <<< 16 else 0xD340FC00 ||| shamt6 insn <<< 16)
      refine Eq.mp (congrArg (fun m => Emits m _ _) ?_) hemit
      show _ = (if shamt6 insn ≠ 0 then if insn.getLsbD 30 then emit _ else emit _ else pure ())
      cases insn.getLsbD 30 <;> rfl
    · refine hshift (fun a hz => ?_) fun hne => ?_
      · rw [hsra, hz]
        cases insn.getLsbD 30
        · exact BitVec.ushiftRight_zero a
        · exact BitVec.sshiftRight_zero
      · rw [shamt6_eq]
        cases hb : insn.getLsbD 30 with
        | false => exact (computes_lsr _ hne).congr fun a _ => by rw [hsra, hb]; rfl
        | true => exact (computes_asr _ hne).congr fun a _ => by rw [hsra, hb]; rfl
  · refine ⟨_, (himm horr).1, (himm horr).2.congr fun a _ => ?_⟩
    rw [hbase (by decide), aluOpImm_eq hf]
    rfl
  · refine ⟨_, (himm hand).1, (himm hand).2.congr fun a _ => ?_⟩
    rw [hbase (by decide), aluOpImm_eq hf]
    rfl

/-! ## Operations of 32 bits -/

theorem computes_sxtw : Computes [sxtwWord 0 0] fun a _ => (a.setWidth 32).signExtend 64 := by
  have hdecode : decodeOp (sxtwWord 0 0) = some (.base (.sbfm 0 31 0 0)) := by decide
  refine (computes_one (f := fun a _ => A64.sbfm 0 31 a) hdecode fun _ => rfl).congr fun a _ => ?_
  show (a.extractLsb' 0 32).signExtend 64 = _
  rw [A64.extract_setWidth]

theorem sub_cases {f7 : BitVec 7} (h : (f7 == 0 || f7 == 0x20) = true) : f7 = 0 ∨ f7 = 0x20 := by
  simpa using h

/-- A word that computes in 32 bits, and `SXTW`. -/
theorem computes_wide {w : U32} {i : Op} {f : U32 → U32 → U32} (hw : decodeOp w = some i)
    (hi : ∀ s, execOp s i = .next (s.setW 0 (f (s.getW 0) (s.getW 1)))) :
    Computes [w, sxtwWord 0 0] fun a b => (f (a.setWidth 32) (b.setWidth 32)).signExtend 64 := by
  have hword : Computes [w] fun a b => (f (a.setWidth 32) (b.setWidth 32)).setWidth 64 := computes_one hw hi
  refine (hword.then computes_sxtw fun _ _ _ => rfl).congr fun a b => ?_
  rw [BitVec.setWidth_setWidth_of_le _ (by decide), BitVec.setWidth_eq]

theorem decode_op32 : decodeOp 0x1B017C00 = some (.aluW .mul 1 0 0) ∧ decodeOp 0x0B010000 = some (.aluW .add 1 0 0) ∧
    decodeOp 0x4B010000 = some (.aluW .sub 1 0 0) ∧ decodeOp 0x1AC12000 = some (.aluW .lslv 1 0 0) ∧
    decodeOp 0x1AC12400 = some (.aluW .lsrv 1 0 0) ∧ decodeOp 0x1AC12800 = some (.aluW .asrv 1 0 0) := by decide

/-- The words of a 32-bit operation that is compiled compute what the interpreter computes. -/
def Computes32 (f3 : BitVec 3) (f7 : BitVec 7) : Prop :=
  ∃ (w : U32) (f : U32 → U32 → U32), Emits (emitOp32 f3 f7) [w] true ∧ (∀ a b, aluOp32 f7 f3 a b = some (f a b)) ∧
    Computes [w, sxtwWord 0 0] fun a b => (f (a.setWidth 32) (b.setWidth 32)).signExtend 64

theorem computes32_mul : Computes32 0 1 :=
  ⟨0x1B017C00, (· * ·), fun _ => rfl, fun _ _ => rfl, computes_wide decode_op32.1 fun _ => rfl⟩

theorem computes32_add : Computes32 0 0 :=
  ⟨0x0B010000, (· + ·), fun _ => rfl, fun _ _ => rfl, computes_wide decode_op32.2.1 fun _ => rfl⟩

theorem computes32_sub : Computes32 0 0x20 :=
  ⟨0x4B010000, (· - ·), fun _ => rfl, fun _ _ => rfl, computes_wide decode_op32.2.2.1 fun _ => rfl⟩

theorem computes32_sll {f7 : BitVec 7} (h : f7 ≠ 1) : Computes32 1 f7 := by
  refine ⟨0x1AC12000, fun a b => a <<< (b.toNat % 32), fun j => ?_, fun a b => ?_,
    computes_wide (f := fun a b => a <<< (b.toNat % 32)) decode_op32.2.2.2.1 fun _ => rfl⟩
  · unfold emitOp32
    rw [if_neg h]
    rfl
  · unfold aluOp32
    rw [if_neg h]
    show some (a <<< (b &&& 0x1F)) = _
    rw [BitVec.shiftLeft_eq', shift32]

theorem computes32_srl : Computes32 5 0 := by
  refine ⟨0x1AC12400, fun a b => a >>> (b.toNat % 32), fun _ => rfl, fun a b => ?_,
    computes_wide (f := fun a b => a >>> (b.toNat % 32)) decode_op32.2.2.2.2.1 fun _ => rfl⟩
  show some (a >>> (b &&& 0x1F)) = _
  rw [BitVec.ushiftRight_eq', shift32]

theorem computes32_sra : Computes32 5 0x20 := by
  refine ⟨0x1AC12800, fun a b => a.sshiftRight (b.toNat % 32), fun _ => rfl, fun a b => ?_,
    computes_wide (f := fun a b => a.sshiftRight (b.toNat % 32)) decode_op32.2.2.2.2.2 fun _ => rfl⟩
  show some (a.sshiftRight (b &&& 0x1F).toNat) = _
  rw [shift32]

theorem computes_op32 {f3 : BitVec 3} {f7 : BitVec 7} {rd : BitVec 5} (hrd : rd ≠ 0) (h : op32Compiles rd f3 f7 = true) :
    Computes32 f3 f7 := by
  unfold op32Compiles at h
  rw [if_neg hrd] at h
  by_cases h1 : f7 = 1
  · rw [if_pos h1] at h
    obtain rfl := beq_iff_eq.1 h
    exact h1 ▸ computes32_mul
  · rw [if_neg h1] at h
    rcases funct3_cases f3 with rfl | rfl | rfl | rfl | rfl | rfl | rfl | rfl
    · rcases sub_cases h with rfl | rfl
      · exact computes32_add
      · exact computes32_sub
    · exact computes32_sll h1
    · cases h
    · cases h
    · cases h
    · rcases sub_cases h with rfl | rfl
      · exact computes32_srl
      · exact computes32_sra
    · cases h
    · cases h

/-! ## Constant operands of 32 bits -/

theorem shamt5_eq (insn : U32) : shamt5 insn = (insn.extractLsb' 20 5 : BitVec 5).setWidth 32 := by
  apply BitVec.eq_of_toNat_eq
  have hlt := insn.isLt
  have hand : (insn >>> 20 &&& 0x1F).toNat = (insn >>> 20).toNat % 32 := by
    rw [BitVec.toNat_and]
    exact Nat.and_two_pow_sub_one_eq_mod _ 5
  unfold shamt5
  rw [hand, BitVec.toNat_setWidth, BitVec.extractLsb'_toNat, BitVec.toNat_ushiftRight]
  omega

theorem shamt5_zero {insn : U32} : shamt5 insn = 0 ↔ (insn.extractLsb' 20 5 : BitVec 5) = 0 := by
  rw [shamt5_eq]
  generalize (insn.extractLsb' 20 5 : BitVec 5) = k
  revert k
  decide

/-- The words of 32-bit shifts by `k`. -/
theorem decode_shift32 : ∀ k : BitVec 5, k ≠ 0 →
    decodeOp (0x53000000 ||| ((32 - k.setWidth 32) &&& 31) <<< 16 ||| (31 - k.setWidth 32) <<< 10) =
      some (.ubfmW ((-k).setWidth 6) ((31 - k).setWidth 6) 0 0) ∧
    decodeOp (0x53007C00 ||| k.setWidth 32 <<< 16) = some (.ubfmW (k.setWidth 6) 31 0 0) ∧
    decodeOp (0x13007C00 ||| k.setWidth 32 <<< 16) = some (.sbfmW (k.setWidth 6) 31 0 0) ∧
    ((-k).setWidth 6).toNat = 32 - k.toNat ∧ ((31 - k).setWidth 6).toNat = 31 - k.toNat ∧ (k.setWidth 6).toNat = k.toNat := by
  decide

/-- A shift of 32 bits by a constant, left out when the constant is 0, and `SXTW`. -/
theorem computes_shift32 {insn w : U32} {f : U32 → U32} (hzero : (insn.extractLsb' 20 5 : BitVec 5) = 0 → ∀ a, f a = a)
    (hw : (insn.extractLsb' 20 5 : BitVec 5) ≠ 0 → Computes [w, sxtwWord 0 0] fun a _ => (f (a.setWidth 32)).signExtend 64) :
    Computes ((if shamt5 insn = 0 then [] else [w]) ++ [sxtwWord 0 0]) fun a _ => (f (a.setWidth 32)).signExtend 64 := by
  by_cases h : shamt5 insn = 0
  · rw [if_pos h]
    refine computes_sxtw.congr fun a _ => ?_
    rw [hzero (shamt5_zero.1 h)]
  · rw [if_neg h]
    exact hw fun e => h (shamt5_zero.2 e)

theorem computes_lslW (k : BitVec 5) (hk : k ≠ 0) :
    Computes [0x53000000 ||| ((32 - k.setWidth 32) &&& 31) <<< 16 ||| (31 - k.setWidth 32) <<< 10, sxtwWord 0 0]
      fun a _ => (a.setWidth 32 <<< k : U32).signExtend 64 := by
  obtain ⟨hdecode, -, -, himmr, himms, -⟩ := decode_shift32 k hk
  have hpos : 0 < k.toNat := Nat.pos_of_ne_zero fun e => hk (BitVec.eq_of_toNat_eq e)
  refine (computes_wide (f := fun a _ => A64.ubfmW ((-k).setWidth 6).toNat ((31 - k).setWidth 6).toNat a) hdecode
    fun _ => rfl).congr fun a _ => ?_
  rw [himmr, himms, A64.ubfmW_lsl _ hpos k.isLt, BitVec.shiftLeft_eq']

theorem computes_lsrW (k : BitVec 5) (hk : k ≠ 0) :
    Computes [0x53007C00 ||| k.setWidth 32 <<< 16, sxtwWord 0 0] fun a _ => (a.setWidth 32 >>> k : U32).signExtend 64 := by
  obtain ⟨-, hdecode, -, -, -, himmr⟩ := decode_shift32 k hk
  refine (computes_wide (f := fun a _ => A64.ubfmW (k.setWidth 6).toNat 31 a) hdecode fun _ => rfl).congr fun a _ => ?_
  rw [himmr, A64.ubfmW_lsr _ k.isLt, BitVec.ushiftRight_eq']

theorem computes_asrW (k : BitVec 5) (hk : k ≠ 0) :
    Computes [0x13007C00 ||| k.setWidth 32 <<< 16, sxtwWord 0 0]
      fun a _ => ((a.setWidth 32).sshiftRight k.toNat : U32).signExtend 64 := by
  obtain ⟨-, -, hdecode, -, -, himmr⟩ := decode_shift32 k hk
  refine (computes_wide (f := fun a _ => A64.sbfmW (k.setWidth 6).toNat 31 a) hdecode fun _ => rfl).congr fun a _ => ?_
  rw [himmr, A64.sbfmW_asr _ k.isLt]

/-- SRAIW is told by bit 30. -/
def armOpImm32 (insn : U32) (src : U32) : Option U32 :=
  let shamt : BitVec 5 := insn.extractLsb' 20 5
  if funct3 insn = 5 then some (if insn.getLsbD 30 then src.sshiftRight shamt.toNat else src >>> shamt)
  else aluOpImm32 insn src

theorem computes_addWSimm (v : BitVec 12) :
    ∃ w, Emits (emitAddWSimm 0 0 ((v.signExtend 64).setWidth 32)) [w] () ∧
      Computes [w, sxtwWord 0 0] fun a _ => (a.setWidth 32 + (v.signExtend 64).setWidth 32 : U32).signExtend 64 := by
  have hext := signExtend12_toNat v
  have hlt := v.isLt
  have hneg := BitVec.toNat_neg v
  have himm := setWidth_imm12 v
  have hlow : v.toInt < 2 ^ (12 - 1) := BitVec.toInt_lt
  have hhigh : -2 ^ (12 - 1) ≤ v.toInt := BitVec.le_toInt v
  have hrn : (0 : U32) <<< 5 = 0 := rfl
  by_cases hv : v.toNat < 2048
  · rw [if_pos hv] at hext
    have hnarrow : (v.signExtend 64).setWidth 32 = v.setWidth 32 := by
      apply BitVec.eq_of_toNat_eq
      rw [BitVec.toNat_setWidth, BitVec.toNat_setWidth, hext]
    have hpos : 0 ≤ v.toInt := by
      rw [BitVec.toInt_eq_toNat_cond, if_pos (by omega)]
      omega
    refine ⟨(0x11000000 : U32) ||| v.setWidth 32 <<< 10 ||| (0 : U32) <<< 5 ||| 0, ?_, ?_⟩
    · unfold emitAddWSimm
      rw [if_pos ⟨by omega, by omega⟩, hnarrow]
      exact emits_emit _
    · rw [hnarrow]
      exact computes_wide (f := fun a _ => a + v.setWidth 32)
        (A64.decode_addImmW v (by rw [hrn]; exact BitVec.or_zero)) fun _ => rfl
  · rw [if_neg hv] at hext
    have hnarrow : -((v.signExtend 64).setWidth 32) = (-v).setWidth 32 := by
      apply BitVec.eq_of_toNat_eq
      rw [BitVec.toNat_neg, BitVec.toNat_setWidth, BitVec.toNat_setWidth, hext, hneg]
      omega
    have hpos : v.toInt < 0 := by
      rw [BitVec.toInt_eq_toNat_cond, if_neg (by omega)]
      omega
    refine ⟨(0x51000000 : U32) ||| (-v).setWidth 32 <<< 10 ||| (0 : U32) <<< 5 ||| 0, ?_, ?_⟩
    · unfold emitAddWSimm
      rw [if_neg (by omega), if_pos ⟨by omega, by omega⟩, hnarrow]
      exact emits_emit _
    · refine (computes_wide (f := fun a _ => a - (-v).setWidth 32)
        (A64.decode_subImmW (-v) (by rw [hrn]; exact BitVec.or_zero)) fun _ => rfl).congr fun a _ => ?_
      rw [← hnarrow, BitVec.sub_neg]

theorem armOpImm32_eq {insn : U32} {f3 : BitVec 3} (h : funct3 insn = f3) (h5 : f3 ≠ 5) (src : U32) :
    armOpImm32 insn src = match f3.toNat with
      | 0 => some (src + (immI insn).setWidth 32)
      | 1 => some (src <<< (insn.extractLsb' 20 5 : BitVec 5))
      | 5 => some (if funct7 insn = 0x20 then src.sshiftRight (insn.extractLsb' 20 5 : BitVec 5).toNat
        else src >>> (insn.extractLsb' 20 5 : BitVec 5))
      | _ => none := by
  subst h
  exact if_neg h5

theorem armOpImm32_shift {insn : U32} (h : funct3 insn = 5) (src : U32) :
    armOpImm32 insn src = some (if insn.getLsbD 30 then src.sshiftRight (insn.extractLsb' 20 5 : BitVec 5).toNat
      else src >>> (insn.extractLsb' 20 5 : BitVec 5)) := if_pos h

theorem emits_shift32 (shamt : U32) {m : Emit Unit} {w : U32} (hm : Emits m [w] ()) :
    Emits (do
      if shamt ≠ 0 then m
      return true) (if shamt = 0 then [] else [w]) true := by
  by_cases h : shamt = 0
  · rw [if_pos h, if_neg (not_not.2 h)]
    exact emits_pure true
  · rw [if_neg h, if_pos h]
    exact hm.bind (emits_pure true)

/-- The words of a compiled instruction of OP-IMM-32 compute `armOpImm32`. -/
theorem computes_opImm32 (insn : U32) {rd : BitVec 5} (hrd : rd ≠ 0) (h : opImm32Compiles rd (funct3 insn) = true) :
    ∃ (ws : List U32) (f : U32 → U32), Emits (emitOpImm32 insn (funct3 insn)) ws true ∧
      (∀ a, armOpImm32 insn a = some (f a)) ∧
      Computes (ws ++ [sxtwWord 0 0]) fun a _ => (f (a.setWidth 32)).signExtend 64 := by
  unfold opImm32Compiles at h
  rw [if_neg hrd] at h
  generalize hf : funct3 insn = f3 at h ⊢
  rcases funct3_cases f3 with rfl | rfl | rfl | rfl | rfl | rfl | rfl | rfl
  · obtain ⟨w, hemit, hcomp⟩ := computes_addWSimm (insn.extractLsb' 20 12)
    exact ⟨[w], fun a => a + (immI insn).setWidth 32, hemit.bind (emits_pure true),
      fun a => armOpImm32_eq hf (by decide) a, hcomp⟩
  · refine ⟨_, fun a => a <<< (insn.extractLsb' 20 5 : BitVec 5), emits_shift32 (shamt5 insn) (emits_emit _),
      fun a => armOpImm32_eq hf (by decide) a, ?_⟩
    refine computes_shift32 (f := fun a => a <<< (insn.extractLsb' 20 5 : BitVec 5)) (fun hz a => ?_) fun hne => ?_
    · rw [hz]
      exact BitVec.shiftLeft_zero a
    · rw [shamt5_eq]
      exact computes_lslW _ hne
  · cases h
  · cases h
  · cases h
  · cases hb : insn.getLsbD 30 with
    | false =>
      have hemit : emitOpImm32 insn 5 = (do
          if shamt5 insn ≠ 0 then emit (0x53007C00 ||| shamt5 insn <<< 16)
          return true) := by
        unfold emitOpImm32
        rw [hb]
        rfl
      refine ⟨_, fun a => a >>> (insn.extractLsb' 20 5 : BitVec 5), hemit ▸ emits_shift32 (shamt5 insn) (emits_emit _),
        fun a => (armOpImm32_shift hf a).trans (by rw [hb]; rfl), ?_⟩
      refine computes_shift32 (f := fun a => a >>> (insn.extractLsb' 20 5 : BitVec 5)) (fun hz a => ?_) fun hne => ?_
      · rw [hz]
        exact BitVec.ushiftRight_zero a
      · rw [shamt5_eq]
        exact computes_lsrW _ hne
    | true =>
      have hemit : emitOpImm32 insn 5 = (do
          if shamt5 insn ≠ 0 then emit (0x13007C00 ||| shamt5 insn <<< 16)
          return true) := by
        unfold emitOpImm32
        rw [hb]
        rfl
      refine ⟨_, fun a => a.sshiftRight (insn.extractLsb' 20 5 : BitVec 5).toNat,
        hemit ▸ emits_shift32 (shamt5 insn) (emits_emit _), fun a => (armOpImm32_shift hf a).trans (by rw [hb]; rfl), ?_⟩
      refine computes_shift32 (f := fun a => a.sshiftRight (insn.extractLsb' 20 5 : BitVec 5).toNat) (fun hz a => ?_)
        fun hne => ?_
      · rw [hz]
        exact BitVec.sshiftRight_zero
      · rw [shamt5_eq]
        exact computes_asrW _ hne
  · cases h
  · cases h

end Arm64
end PgLinux
