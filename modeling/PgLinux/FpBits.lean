import PgLinux.Fpu
import PgLinux.Lib.Ieee
/-!
# FpBits — floating-point instructions that round nothing

Sign injection, minimum and maximum, comparison, classification and moves have results that the patterns of their operands
determine.  `rv64_fp_exec` computes some of them with the comparisons of the host, which order numbers and not patterns: two
zeros are equal there, and of a NaN they tell nothing but that it is one.
-/
namespace PgLinux

open Ieee

/-! ## The rule -/

/-- The single in a register: NaN unless it is boxed. -/
def unbox (v : U64) : U32 := if v.extractLsb' 32 32 = (BitVec.allOnes 32) then v.setWidth 32 else canonicalNan binary32

def box (v : U32) : U64 := BitVec.allOnes 32 ++ v

section Formats

variable {w : Nat} (F : Format w)

def IsNan (v : BitVec w) : Prop := decode F v = .nan

instance (v : BitVec w) : Decidable (IsNan F v) := inferInstanceAs (Decidable (_ = _))

def IsZero (v : BitVec w) : Prop := decode F v = .fin 0

instance (v : BitVec w) : Decidable (IsZero F v) := inferInstanceAs (Decidable (_ = _))

/-- `a` is smaller; -0 is smaller than +0. -/
def Smaller (a b : BitVec w) : Prop := (decode F a).lt (decode F b) ∨ IsZero F a ∧ IsZero F b ∧ a.msb = true ∧ b.msb = false

instance (a b : BitVec w) : Decidable (Smaller F a b) := inferInstanceAs (Decidable (_ ∨ _))

/-- FMIN and FMAX: a NaN gives way to a number. -/
def minMaxSpec (max : Bool) (a b : BitVec w) : BitVec w :=
  if IsNan F a then if IsNan F b then canonicalNan F else b
  else if IsNan F b then a
  else if max then if Smaller F b a then a else b
  else if Smaller F a b then a else b

/-- The bit that FCLASS sets. -/
def classSpec (v : BitVec w) : Nat :=
  if Special F v then if mant F v = 0 then if v.msb then 0 else 7 else if quiet F v then 9 else 8
  else if expo F v = 0 then if mant F v = 0 then if v.msb then 3 else 4 else if v.msb then 2 else 5
  else if v.msb then 1 else 6

def sgnjSpec (f3 : BitVec 3) (a b : BitVec w) : Option (BitVec w) :=
  match f3.toNat with
  | 0 => some (withSign b.msb a)
  | 1 => some (withSign (!b.msb) a)
  | 2 => some (withSign (a.msb ^^ b.msb) a)
  | _ => none

def cmpSpec (f3 : BitVec 3) (a b : BitVec w) : Option Bool :=
  match f3.toNat with
  | 0 => some ((decode F a).le (decode F b))
  | 1 => some ((decode F a).lt (decode F b))
  | 2 => some ((decode F a).eq (decode F b))
  | _ => none

end Formats

/-- A result, for an `f` or an `x` register. -/
inductive FpDest where
  | f (v : U64)
  | x (v : U64)

def FpDest.write (d : FpDest) (rd : BitVec 5) (c : Cpu) : Cpu :=
  match d with
  | .f v => wrD rd v c
  | .x v => setX rd v c

/-- What RISC-V lays down for an instruction of opcode 0x53 that rounds nothing; `none` for the others. -/
def bitsSpec (insn : U32) (fa fb xa : U64) : Option FpDest :=
  let f3 := funct3 insn
  match (funct7 insn).toNat with
  | 0x10 => (sgnjSpec f3 (unbox fa) (unbox fb)).map fun r => .f (box r)
  | 0x11 => (sgnjSpec f3 fa fb).map .f
  | 0x14 => if f3 ≤ 1 then some (.f (box (minMaxSpec binary32 (f3 == 1) (unbox fa) (unbox fb)))) else none
  | 0x15 => if f3 ≤ 1 then some (.f (minMaxSpec binary64 (f3 == 1) fa fb)) else none
  | 0x50 => (cmpSpec binary32 f3 (unbox fa) (unbox fb)).map fun r => .x (if r then 1 else 0)
  | 0x51 => (cmpSpec binary64 f3 fa fb).map fun r => .x (if r then 1 else 0)
  | 0x70 =>
    if rs2 insn ≠ 0 then none
    else if f3 = 0 then some (.x ((fa.extractLsb' 0 32).signExtend 64))
    else if f3 = 1 then some (.x ((1 : U64) <<< classSpec binary32 (unbox fa)))
    else none
  | 0x71 =>
    if rs2 insn ≠ 0 then none
    else if f3 = 0 then some (.x fa)
    else if f3 = 1 then some (.x ((1 : U64) <<< classSpec binary64 fa))
    else none
  | 0x78 => if rs2 insn = 0 ∧ f3 = 0 then some (.f (box (xa.extractLsb' 0 32))) else none
  | 0x79 => if rs2 insn = 0 ∧ f3 = 0 then some (.f xa) else none
  | _ => none

section Law

variable [NetDevice] [HostFp]

/-- In the machine `c`, the instruction delivers the result that is laid down; the accrued flags are left open. -/
def DeliversBits (insn : U32) (c : Cpu) : Prop :=
  ∀ r, bitsSpec insn (c.f (rs1 insn)) (c.f (rs2 insn)) (c.x (rs1 insn)) = some r →
    ∃ flags, rv64FpExec insn c = (.ok, { r.write (rd insn) (markFsDirty c) with fcsr := flags })

end Law

/-- The comparisons of C on a floating type in the format. -/
structure FpOps.Compares {w : Nat} (F : Format w) (o : FpOps w) : Prop where
  lt : ∀ a b, o.lt a b = (decode F a).lt (decode F b)
  le : ∀ a b, o.le a b = (decode F a).le (decode F b)
  eq : ∀ a b, o.eq a b = (decode F a).eq (decode F b)
  isNan : ∀ v, o.isNan v = decide (decode F v = .nan)
  isInf : ∀ v, o.isInf v = decide (decode F v = .inf v.msb)

section Kinds

variable {w : Nat} (F : Format w)

/-- Two NaNs of which the first is not the canonical one, or two zeros of which the first is the one to deliver. -/
def MinMaxWrong (max : Bool) (a b : BitVec w) : Prop :=
  IsNan F a ∧ IsNan F b ∧ a ≠ canonicalNan F ∨ IsZero F a ∧ IsZero F b ∧ a.msb = !max ∧ b.msb = max

instance (max : Bool) (a b : BitVec w) : Decidable (MinMaxWrong F max a b) := inferInstanceAs (Decidable (_ ∨ _))

/-- Subnormal numbers and signaling NaNs. -/
def ClassWrong (v : BitVec w) : Prop :=
  ¬ Special F v ∧ expo F v = 0 ∧ mant F v ≠ 0 ∨ Special F v ∧ mant F v ≠ 0 ∧ quiet F v = false

instance (v : BitVec w) : Decidable (ClassWrong F v) := inferInstanceAs (Decidable (_ ∨ _))

end Kinds

/-- The operands for which `rv64_fp_exec` computes something else. -/
def BitsWrong (insn : U32) (fa fb : U64) : Prop :=
  match (funct7 insn).toNat with
  | 0x14 => MinMaxWrong binary32 (funct3 insn == 1) (unbox fa) (unbox fb)
  | 0x15 => MinMaxWrong binary64 (funct3 insn == 1) fa fb
  | 0x70 => funct3 insn = 1 ∧ ClassWrong binary32 (unbox fa)
  | 0x71 => funct3 insn = 1 ∧ ClassWrong binary64 fa
  | _ => False

/-! ## Registers -/

theorem rdF_eq (c : Cpu) (r : BitVec 5) : rdF c r = unbox (c.f r) := by
  have hboxed : c.f r >>> 32 = 0xFFFFFFFF ↔ (c.f r).extractLsb' 32 32 = BitVec.allOnes 32 := by
    have hsplit : c.f r >>> 32 = ((c.f r).extractLsb' 32 32).setWidth 64 := by
      apply BitVec.eq_of_getLsbD_eq
      intro i hi
      simp only [BitVec.getLsbD_ushiftRight, BitVec.getLsbD_setWidth, BitVec.getLsbD_extractLsb']
      by_cases hlt : i < 32
      · simp [hlt, hi]
      · simp [hlt, BitVec.getLsbD_of_ge (c.f r) (32 + i) (by omega)]
    rw [hsplit]
    constructor
    · intro h
      have hlow := congrArg (BitVec.setWidth 32) h
      simpa using hlow
    · intro h
      rw [h]
      decide
  unfold rdF unbox
  simp only [hboxed]
  rfl

theorem nanBox_eq (v : U32) : nanBox v = box v := by
  have hones : (0xFFFFFFFF00000000 : U64) = BitVec.allOnes 32 ++ (0 : U32) := by decide
  unfold nanBox box
  rw [hones]
  apply BitVec.eq_of_getLsbD_eq
  intro i hi
  simp only [BitVec.getLsbD_or, BitVec.getLsbD_append, BitVec.getLsbD_setWidth]
  by_cases hlt : i < 32
  · simp [hlt, hi]
  · simp [hlt, BitVec.getLsbD_of_ge v i (Nat.not_lt.1 hlt)]

theorem setWidth_box (v : U32) : (box v).setWidth 32 = v := by
  apply BitVec.eq_of_getLsbD_eq
  intro i hi
  unfold box
  rw [BitVec.getLsbD_setWidth, BitVec.getLsbD_append]
  simp only [hi, decide_true, Bool.true_and, if_true]

theorem box_inj {v v' : U32} : box v = box v' ↔ v = v' := by
  constructor
  · intro h
    rw [← setWidth_box v, h, setWidth_box]
  · intro h
    rw [h]

theorem wrD_delivers (rd : BitVec 5) (v v' : U64) (c : Cpu) :
    (∃ flags, wrD rd v c = { wrD rd v' c with fcsr := flags }) ↔ v = v' := by
  constructor
  · rintro ⟨flags, h⟩
    have hreg := congrFun (congrArg Cpu.f h) rd
    simpa [wrD, setAt] using hreg
  · rintro rfl
    exact ⟨c.fcsr, rfl⟩

theorem setX_delivers (rd : BitVec 5) (v v' : U64) (c : Cpu) :
    (∃ flags, setX rd v c = { setX rd v' c with fcsr := flags }) ↔ v = v' := by
  constructor
  · rintro ⟨flags, h⟩
    have hreg := congrFun (congrArg Cpu.x h) rd
    simpa [setX, setAt] using hreg
  · rintro rfl
    exact ⟨c.fcsr, rfl⟩

/-! ## Operations -/

section Operations

variable {w : Nat} {F : Format w} {o : FpOps w}

theorem getLsbD_signMask {i : Nat} (hi : i < w) : (signMask : BitVec w).getLsbD i = decide (i = w - 1) := by
  unfold signMask
  rw [BitVec.getLsbD_twoPow]
  have hlast : w - 1 < w := by omega
  simp [hlast, eq_comm]

/-- The sign of one pattern on another. -/
theorem sign_or (a b : BitVec w) : (a &&& ~~~signMask) ||| (b &&& signMask) = withSign b.msb a := by
  apply BitVec.eq_of_getLsbD_eq
  intro i hi
  rw [getLsbD_withSign _ _ hi, BitVec.msb_eq_getLsbD_last]
  simp only [BitVec.getLsbD_or, BitVec.getLsbD_and, BitVec.getLsbD_not, getLsbD_signMask hi, hi, decide_true, Bool.true_and]
  by_cases hlast : i = w - 1
  · simp [hlast]
  · simp [hlast]

/-- **Sign injection is the one laid down.** -/
theorem fpSgnj_eq (hw : 0 < w) (f3 : BitVec 3) (a b : BitVec w) : fpSgnj f3 a b = sgnjSpec f3 a b := by
  have hnot : (~~~b).msb = !b.msb := by simp [hw]
  have hxor : (a ^^^ b).msb = (a.msb ^^ b.msb) := BitVec.msb_xor
  show (match f3.toNat with
    | 0 => some ((a &&& ~~~signMask) ||| (b &&& signMask))
    | 1 => some ((a &&& ~~~signMask) ||| (~~~b &&& signMask))
    | 2 => some ((a &&& ~~~signMask) ||| ((a ^^^ b) &&& signMask))
    | _ => none) = _
  simp only [sign_or, hnot, hxor, sgnjSpec]

/-- **Comparison is the one laid down.** -/
theorem fpCmp_eq (ho : o.Compares F) (f3 : BitVec 3) (a b : BitVec w) :
    fpCmp o f3 a b = (cmpSpec F f3 a b).map fun r => if r then 1 else 0 := by
  unfold fpCmp cmpSpec
  rw [ho.lt, ho.le, ho.eq]
  split <;> simp_all

theorem Value.lt_nan (v : Value) : v.lt .nan = false := by cases v <;> rfl

theorem msb_ne {a b : BitVec w} (h : a.msb = !b.msb) : a ≠ b := by
  rintro rfl
  cases hm : a.msb <;> simp [hm] at h

/-- What the source computes, with the operands of the comparison in order. -/
theorem fpMinMax_eq (ho : o.Compares F) {f3 : BitVec 3} (hf : f3 ≤ 1) (a b : BitVec w) :
    fpMinMax o f3 a b = if (if f3 == 1 then (decode F b).lt (decode F a) else (decode F a).lt (decode F b)) ∨ IsNan F b
      then a else b := by
  have hcases : f3 = 0 ∨ f3 = 1 := by
    revert hf
    revert f3
    decide
  unfold fpMinMax
  rcases hcases with rfl | rfl <;> simp [ho.lt, ho.isNan, IsNan]

/-- **Minimum and maximum are the ones laid down**, but for the two kinds. -/
theorem fpMinMax_iff (ho : o.Compares F) {f3 : BitVec 3} (hf : f3 ≤ 1) (a b : BitVec w) :
    fpMinMax o f3 a b = minMaxSpec F (f3 == 1) a b ↔ ¬ MinMaxWrong F (f3 == 1) a b := by
  rw [fpMinMax_eq ho hf]
  generalize (f3 == 1) = max
  have hzero : ∀ v : BitVec w, IsZero F v → ¬ IsNan F v := by
    intro v hz hn
    rw [IsZero, IsNan] at *
    rw [hz] at hn
    cases hn
  unfold minMaxSpec MinMaxWrong
  by_cases ha : IsNan F a
  · have haz : ¬ IsZero F a := fun h => hzero a h ha
    by_cases hb : IsNan F b
    · simp [ha, hb, haz]
    · have hltb : (decode F a).lt (decode F b) = false := by
        rw [show decode F a = .nan from ha]
        rfl
      have hlta : (decode F b).lt (decode F a) = false := by
        rw [show decode F a = .nan from ha]
        exact Value.lt_nan _
      simp [ha, hb, haz, hltb, hlta]
  · by_cases hb : IsNan F b
    · have hbz : ¬ IsZero F b := fun h => hzero b h hb
      simp [ha, hb, hbz]
    · -- two numbers: the host and the rule differ where two zeros tie
      simp only [ha, hb, if_false, or_false, false_and, false_or]
      have htie : IsZero F a → IsZero F b → (decode F a).lt (decode F b) = false ∧ (decode F b).lt (decode F a) = false := by
        intro hz hz'
        rw [show decode F a = .fin 0 from hz, show decode F b = .fin 0 from hz']
        exact ⟨by decide, by decide⟩
      cases max
      · by_cases hw : IsZero F a ∧ IsZero F b ∧ a.msb = true ∧ b.msb = false
        · have hne : b ≠ a := (msb_ne (by rw [hw.2.2.1, hw.2.2.2]; rfl)).symm
          simp [Smaller, hw, (htie hw.1 hw.2.1).1, hne]
        · simp [Smaller, hw]
      · by_cases hw : IsZero F b ∧ IsZero F a ∧ b.msb = true ∧ a.msb = false
        · have hne : b ≠ a := msb_ne (by rw [hw.2.2.1, hw.2.2.2]; rfl)
          simp [Smaller, hw, (htie hw.2.1 hw.1).2, hne]
        · have hw' : ¬ (IsZero F a ∧ IsZero F b ∧ a.msb = false ∧ b.msb = true) := fun h =>
            hw ⟨h.2.1, h.1, h.2.2.2, h.2.2.1⟩
          simp [Smaller, hw, hw']

theorem decode_zero : decode F (0 : BitVec w) = .fin 0 := by
  have hexpo : expo F (0 : BitVec w) = 0 := by simp [expo]
  have hmant : mant F (0 : BitVec w) = 0 := by simp [mant]
  have hspecial : ¬ Special F (0 : BitVec w) := by
    have hpow : 2 ≤ 2 ^ F.exp := Nat.pow_le_pow_right (Nat.succ_pos 1) F.exp_pos
    unfold Special
    omega
  unfold decode
  rw [if_neg hspecial, (toRat_eq_zero F 0).2 ((mag_eq_zero F 0).2 ⟨hexpo, hmant⟩)]

/-- What the source computes: a class for each kind of number, and one for NaN. -/
theorem fpClass_eq (ho : o.Compares F) (v : BitVec w) : fpClass o v = match decode F v with
    | .nan => 1 <<< 9
    | .inf _ => if v.msb then 1 <<< 0 else 1 <<< 7
    | .fin q => if q < 0 then 1 <<< 1 else if q = 0 then if v.msb then 1 <<< 3 else 1 <<< 4 else 1 <<< 6 := by
  unfold fpClass
  rw [ho.isInf, ho.isNan, ho.lt, ho.lt, ho.eq, decode_zero]
  have hinf : ∀ neg, decode F v = .inf neg → neg = v.msb := by
    intro neg h
    unfold decode at h
    split at h
    · split at h
      · cases h
        rfl
      · cases h
    · cases h
  cases hv : decode F v with
  | nan => simp [Value.lt, Value.eq]
  | inf neg =>
    obtain rfl := hinf neg hv
    cases v.msb <;> simp [Value.lt, Value.eq]
  | fin q =>
    rcases lt_trichotomy q 0 with h | h | h
    · simp [Value.lt, h]
    · cases v.msb <;> simp [Value.lt, Value.eq, h]
    · simp [Value.lt, Value.eq, h, h.not_gt, h.ne']

/-- **Classification is the one laid down**, but for the two kinds. -/
theorem fpClass_iff (ho : o.Compares F) (v : BitVec w) :
    fpClass o v = (1 : U64) <<< classSpec F v ↔ ¬ ClassWrong F v := by
  rw [fpClass_eq ho]
  by_cases hs : Special F v
  · by_cases hm : mant F v = 0
    · have hv : decode F v = .inf v.msb := by
        unfold decode
        rw [if_pos hs, if_pos hm]
      rw [hv]
      cases hmsb : v.msb <;> simp [classSpec, ClassWrong, hs, hm, hmsb]
    · have hv : decode F v = .nan := by
        unfold decode
        rw [if_pos hs, if_neg hm]
      rw [hv]
      cases hq : quiet F v <;> simp [classSpec, ClassWrong, hs, hm, hq]
  · have hv : decode F v = .fin (toRat F v) := by
      unfold decode
      rw [if_neg hs]
    have hneg := toRat_neg F v
    have hzero := toRat_eq_zero F v
    have hmag := mag_eq_zero F v
    rw [hv]
    by_cases he : expo F v = 0
    · by_cases hm : mant F v = 0
      · have hz : toRat F v = 0 := hzero.2 (hmag.2 ⟨he, hm⟩)
        cases hmsb : v.msb <;> simp [classSpec, ClassWrong, hs, he, hm, hmsb, hz]
      · have hz : mag F v ≠ 0 := fun h => hm (hmag.1 h).2
        cases hmsb : v.msb <;> simp [classSpec, ClassWrong, hs, he, hm, hmsb, hz, hneg, hzero]
    · have hz : mag F v ≠ 0 := fun h => he (hmag.1 h).1
      cases hmsb : v.msb <;> simp [classSpec, ClassWrong, hs, he, hmsb, hz, hneg, hzero]

end Operations

/-! ## Execution -/

section Execution

variable [NetDevice] [HostFp] {insn : U32} {c : Cpu}

theorem rv64FpExec_arith (hop : opcode insn = 0x53) : rv64FpExec insn c =
    match (fpArithS (markFsDirty c) insn).or (fpArithD (markFsDirty c) insn) with
    | some d => (.ok, d)
    | none => (.illegal, markFsDirty c) := by
  unfold rv64FpExec fpCompute
  rw [hop]
  rfl

theorem delivers_f {v v' : U64} (hexec : rv64FpExec insn c = (.ok, wrD (rd insn) v (markFsDirty c)))
    (hr : bitsSpec insn (c.f (rs1 insn)) (c.f (rs2 insn)) (c.x (rs1 insn)) = some (.f v')) :
    DeliversBits insn c ↔ v = v' := by
  rw [← wrD_delivers (rd insn) v v' (markFsDirty c)]
  unfold DeliversBits
  rw [hexec, hr]
  simp [FpDest.write]

theorem delivers_x {v v' : U64} (hexec : rv64FpExec insn c = (.ok, setX (rd insn) v (markFsDirty c)))
    (hr : bitsSpec insn (c.f (rs1 insn)) (c.f (rs2 insn)) (c.x (rs1 insn)) = some (.x v')) :
    DeliversBits insn c ↔ v = v' := by
  rw [← setX_delivers (rd insn) v v' (markFsDirty c)]
  unfold DeliversBits
  rw [hexec, hr]
  simp [FpDest.write]

/-- **An instruction that rounds nothing delivers what RISC-V lays down exactly outside a few kinds of operands**: FMIN and
FMAX on two NaNs of which the first is not the canonical one, or on two zeros of which the first is the one to deliver, and
FCLASS on subnormal numbers and signaling NaNs. -/
theorem deliversBits_iff (hs : HostFp.s.Compares binary32) (hd : HostFp.d.Compares binary64) (hop : opcode insn = 0x53)
    (hspec : bitsSpec insn (c.f (rs1 insn)) (c.f (rs2 insn)) (c.x (rs1 insn)) ≠ none) :
    DeliversBits insn c ↔ ¬ BitsWrong insn (c.f (rs1 insn)) (c.f (rs2 insn)) := by
  obtain ⟨r, hr⟩ := Option.ne_none_iff_exists'.1 hspec
  have hr' := hr
  have hexec := rv64FpExec_arith (c := c) hop
  have hregs : (markFsDirty c).f = c.f := rfl
  have hread : ∀ r, rdF (markFsDirty c) r = unbox (c.f r) := rdF_eq (markFsDirty c)
  unfold bitsSpec at hr
  unfold BitsWrong
  dsimp only at hr
  split at hr
  case h_1 hf =>
    obtain ⟨v, hv, rfl⟩ := Option.map_eq_some_iff.1 hr
    simp only [fpArithS, hf, hread, fpSgnj_eq (show 0 < 32 by decide), hv] at hexec ⊢
    exact iff_of_true ((delivers_f hexec hr').2 (nanBox_eq v)) id
  case h_2 hf =>
    obtain ⟨v, hv, rfl⟩ := Option.map_eq_some_iff.1 hr
    simp only [fpArithS, fpArithD, hf, hregs, fpSgnj_eq (show 0 < 64 by decide), hv] at hexec ⊢
    exact iff_of_true ((delivers_f hexec hr').2 rfl) id
  case h_3 hf =>
    split at hr
    case isTrue hf3 =>
      cases hr
      simp only [fpArithS, hf, hread] at hexec ⊢
      rw [delivers_f hexec hr', ← fpMinMax_iff hs hf3, nanBox_eq, box_inj]
    case isFalse => cases hr
  case h_4 hf =>
    split at hr
    case isTrue hf3 =>
      cases hr
      simp only [fpArithS, fpArithD, hf] at hexec ⊢
      rw [delivers_f hexec hr', ← fpMinMax_iff hd hf3]
      rfl
    case isFalse => cases hr
  case h_5 hf =>
    obtain ⟨v, hv, rfl⟩ := Option.map_eq_some_iff.1 hr
    simp only [fpArithS, hf, hread, fpCmp_eq hs, hv] at hexec ⊢
    exact iff_of_true ((delivers_x hexec hr').2 rfl) id
  case h_6 hf =>
    obtain ⟨v, hv, rfl⟩ := Option.map_eq_some_iff.1 hr
    simp only [fpArithS, fpArithD, hf, hregs, fpCmp_eq hd, hv] at hexec ⊢
    exact iff_of_true ((delivers_x hexec hr').2 rfl) id
  case h_7 hf =>
    split at hr
    case isTrue => cases hr
    simp only [fpArithS, hf, hread] at hexec ⊢
    split at hr
    case isTrue hf3 =>
      cases hr
      rw [if_pos hf3] at hexec
      refine iff_of_true ((delivers_x hexec hr').2 ?_) (by simp [hf3])
      rw [← BitVec.setWidth_eq_extractLsb' (show 32 ≤ 64 by decide)]
      rfl
    case isFalse hf3 =>
      split at hr
      case isFalse => cases hr
      case isTrue hone =>
        cases hr
        rw [if_neg hf3] at hexec
        rw [delivers_x hexec hr', fpClass_iff hs]
        simp [hone]
  case h_8 hf =>
    split at hr
    case isTrue => cases hr
    simp only [fpArithS, fpArithD, hf] at hexec ⊢
    split at hr
    case isTrue hf3 =>
      cases hr
      rw [if_pos hf3] at hexec
      exact iff_of_true ((delivers_x hexec hr').2 rfl) (by simp [hf3])
    case isFalse hf3 =>
      split at hr
      case isFalse => cases hr
      case isTrue hone =>
        cases hr
        rw [if_neg hf3] at hexec
        rw [delivers_x hexec hr', hregs, fpClass_iff hd]
        simp [hone]
  case h_9 hf =>
    split at hr
    case isFalse => cases hr
    cases hr
    simp only [fpArithS, hf] at hexec ⊢
    refine iff_of_true ((delivers_f hexec hr').2 ?_) id
    rw [nanBox_eq, ← BitVec.setWidth_eq_extractLsb' (show 32 ≤ 64 by decide)]
    rfl
  case h_10 hf =>
    split at hr
    case isFalse => cases hr
    cases hr
    simp only [fpArithS, fpArithD, hf] at hexec ⊢
    exact iff_of_true ((delivers_f hexec hr').2 rfl) id
  case h_11 => cases hr

end Execution

/-! ## A host -/

/-- The number that a conversion to an integer type keeps. -/
def integralPart : Value → ℤ
  | .fin q => truncate q
  | _ => 0

/-- A host whose type has the format, as far as it compares and converts to integers. -/
def FpOps.host {w : Nat} (F : Format w) : FpOps w :=
  { FpOps.zero w with
    lt := fun a b => (decode F a).lt (decode F b)
    le := fun a b => (decode F a).le (decode F b)
    eq := fun a b => (decode F a).eq (decode F b)
    isNan := fun v => decide (decode F v = .nan)
    isInf := fun v => decide (decode F v = .inf v.msb)
    toInt32 := fun v => BitVec.ofInt 32 (integralPart (decode F v))
    toUInt32 := fun v => BitVec.ofInt 32 (integralPart (decode F v))
    toInt64 := fun v => BitVec.ofInt 64 (integralPart (decode F v))
    toUInt64 := fun v => BitVec.ofInt 64 (integralPart (decode F v)) }

abbrev HostFp.host : HostFp := ⟨.host binary32, .host binary64, fun _ => 0, fun _ => 0⟩

theorem FpOps.host_compares {w : Nat} (F : Format w) : (FpOps.host F).Compares F :=
  ⟨fun _ _ => rfl, fun _ _ => rfl, fun _ _ => rfl, fun _ => rfl, fun _ => rfl⟩

section Instances

local instance bitsNet : NetDevice := NetDevice.silent
local instance bitsFp : HostFp := HostFp.host

/-- A machine with one pattern in every floating-point register. -/
def fpFilled (v : U64) : Cpu := { rv64Init (fun _ => 0) 0x1000 with f := fun _ => v }

/-- FMIN.S f0, f1, f2 of 1 and 1. -/
theorem deliversBits_min : DeliversBits 0x28208053 (fpFilled 0xFFFFFFFF3F800000) := by
  have hright : ¬ MinMaxWrong binary32 false (unbox 0xFFFFFFFF3F800000) (unbox 0xFFFFFFFF3F800000) := by decide +kernel
  have hspec : bitsSpec 0x28208053 0xFFFFFFFF3F800000 0xFFFFFFFF3F800000 0 ≠ none := Option.some_ne_none _
  exact (deliversBits_iff (FpOps.host_compares binary32) (FpOps.host_compares binary64) (by decide) hspec).2 hright

/-- FCLASS.D x1, f0 of the least positive number. -/
theorem not_deliversBits_subnormal : ¬ ∀ insn c, opcode insn = 0x53 → DeliversBits insn c := by
  intro h
  have hexec : rv64FpExec 0xE20010D3 (fpFilled 1) =
      (.ok, setX 1 (fpClass (FpOps.host binary64) 1) (markFsDirty (fpFilled 1))) := rfl
  have hspec : bitsSpec 0xE20010D3 1 1 0 = some (.x ((1 : U64) <<< classSpec binary64 1)) := rfl
  have hwrong : ClassWrong binary64 1 := by decide +kernel
  exact (fpClass_iff (FpOps.host_compares binary64) 1).1 ((delivers_x hexec hspec).1 (h 0xE20010D3 (fpFilled 1) (by decide))) hwrong

end Instances

end PgLinux
