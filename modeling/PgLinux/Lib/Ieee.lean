import Mathlib.Algebra.Order.Floor.Ring
import Mathlib.Data.BitVec
import Mathlib.Data.Rat.Floor
import Mathlib.Tactic.Linarith
import Mathlib.Tactic.Positivity
/-!
# Ieee — binary floating-point patterns

A pattern is a sign, an exponent and a fraction, and stands for a rational number, an infinity or NaN.  The patterns are
compared by what they stand for; a finite one is rounded to an integer in one of five directions.
-/
namespace Ieee

/-! ## Patterns -/

/-- A binary interchange format of `w` bits. -/
structure Format (w : Nat) where
  exp : Nat
  frac : Nat
  width : 1 + exp + frac = w
  exp_pos : 0 < exp
  frac_pos : 0 < frac

def binary32 : Format 32 := ⟨8, 23, rfl, by decide, by decide⟩
def binary64 : Format 64 := ⟨11, 52, rfl, by decide, by decide⟩

/-- What a pattern stands for; the zeros are one number. -/
inductive Value where
  | nan
  | inf (neg : Bool)
  | fin (q : ℚ)
deriving DecidableEq

section Patterns

variable {w : Nat} (F : Format w)

/-- The exponent field. -/
def expo (v : BitVec w) : Nat := v.toNat / 2 ^ F.frac % 2 ^ F.exp

/-- The fraction field. -/
def mant (v : BitVec w) : Nat := v.toNat % 2 ^ F.frac

/-- Infinities and NaNs. -/
def Special (v : BitVec w) : Prop := expo F v = 2 ^ F.exp - 1

instance (v : BitVec w) : Decidable (Special F v) := inferInstanceAs (Decidable (_ = _))

/-- The magnitude of a finite pattern, in units of the least positive one. -/
def mag (v : BitVec w) : Nat :=
  if expo F v = 0 then mant F v else (2 ^ F.frac + mant F v) * 2 ^ (expo F v - 1)

/-- The least positive number. -/
def Format.unit : ℚ := 1 / 2 ^ (2 ^ (F.exp - 1) - 2 + F.frac)

def toRat (v : BitVec w) : ℚ := if v.msb then -(mag F v * F.unit) else mag F v * F.unit

def decode (v : BitVec w) : Value :=
  if Special F v then if mant F v = 0 then .inf v.msb else .nan else .fin (toRat F v)

/-- The leading bit of the fraction tells the quiet NaNs from the signaling ones. -/
def quiet (v : BitVec w) : Bool := v.getLsbD (F.frac - 1)

/-- The quiet NaN without sign and payload. -/
def canonicalNan : BitVec w := BitVec.ofNat w ((2 ^ F.exp - 1) * 2 ^ F.frac + 2 ^ (F.frac - 1))

/-- The pattern with that sign. -/
def withSign (neg : Bool) (v : BitVec w) : BitVec w := if v.msb = neg then v else v ^^^ BitVec.twoPow w (w - 1)

theorem getLsbD_withSign (neg : Bool) (v : BitVec w) {i : Nat} (hi : i < w) :
    (withSign neg v).getLsbD i = if i = w - 1 then neg else v.getLsbD i := by
  have hmsb : v.msb = v.getLsbD (w - 1) := BitVec.msb_eq_getLsbD_last v
  have hlast : w - 1 < w := by omega
  unfold withSign
  split
  next h =>
    rw [hmsb] at h
    by_cases hw : i = w - 1
    · rw [if_pos hw, hw, h]
    · rw [if_neg hw]
  next h =>
    rw [hmsb] at h
    rw [BitVec.getLsbD_xor, BitVec.getLsbD_twoPow]
    by_cases hw : i = w - 1
    · rw [if_pos hw, hw]
      cases neg <;> cases hv : v.getLsbD (w - 1) <;> simp_all
    · simp [hw, Ne.symm hw]

theorem unit_pos : 0 < F.unit := by
  unfold Format.unit
  positivity

theorem mag_eq_zero (v : BitVec w) : mag F v = 0 ↔ expo F v = 0 ∧ mant F v = 0 := by
  unfold mag
  split
  next h => simp [h]
  next h =>
    have hpos : 0 < (2 ^ F.frac + mant F v) * 2 ^ (expo F v - 1) := by positivity
    exact iff_of_false hpos.ne' fun hz => h hz.1

theorem toRat_eq_zero (v : BitVec w) : toRat F v = 0 ↔ mag F v = 0 := by
  unfold toRat
  split <;> simp [(unit_pos F).ne']

/-- The sign bit is the sign, but for zero. -/
theorem toRat_neg (v : BitVec w) : toRat F v < 0 ↔ v.msb = true ∧ mag F v ≠ 0 := by
  have hu := unit_pos F
  have hmag : 0 ≤ (mag F v : ℚ) * F.unit := mul_nonneg (Nat.cast_nonneg _) hu.le
  unfold toRat
  split
  next h => simp [h, hu, Nat.pos_iff_ne_zero]
  next h => simp [h, hmag]

end Patterns

/-! ## Comparison -/

namespace Value

/-- The order of the numbers between the infinities; NaN is below and above nothing. -/
def lt : Value → Value → Bool
  | fin p, fin q => p < q
  | fin _, inf neg => !neg
  | inf neg, fin _ => neg
  | inf a, inf b => a && !b
  | _, _ => false

/-- NaN equals nothing. -/
def eq : Value → Value → Bool
  | fin p, fin q => p = q
  | inf a, inf b => a == b
  | _, _ => false

def le (a b : Value) : Bool := a.lt b || a.eq b

end Value

/-! ## Rounding to an integer -/

/-- The rounding directions; the last two go to the nearest integer, and differ between two of them. -/
inductive Rounding where
  | towardZero | down | up | nearestEven | nearestAway
deriving DecidableEq

section Rounding

variable {K : Type*} [Field K] [LinearOrder K] [IsStrictOrderedRing K] [FloorRing K]

/-- The integral part. -/
def truncate (q : K) : ℤ := if 0 ≤ q then ⌊q⌋ else ⌈q⌉

def Rounding.round (r : Rounding) (q : K) : ℤ :=
  match r with
  | towardZero => truncate q
  | down => ⌊q⌋
  | up => ⌈q⌉
  | nearestEven =>
    if Int.fract q < 1 / 2 then ⌊q⌋
    else if 1 / 2 < Int.fract q then ⌊q⌋ + 1
    else if Even ⌊q⌋ then ⌊q⌋ else ⌊q⌋ + 1
  | nearestAway =>
    if Int.fract q < 1 / 2 then ⌊q⌋
    else if 1 / 2 < Int.fract q then ⌊q⌋ + 1
    else if 0 ≤ q then ⌊q⌋ + 1 else ⌊q⌋

/-- Whether the direction drops the fraction of `q`. -/
def Rounding.Drops (r : Rounding) (q : K) : Prop :=
  match r with
  | towardZero => True
  | down => 0 ≤ q ∨ Int.fract q = 0
  | up => q ≤ 0 ∨ Int.fract q = 0
  | nearestEven => |q - truncate q| < 1 / 2 ∨ |q - truncate q| = 1 / 2 ∧ Even (truncate q)
  | nearestAway => |q - truncate q| < 1 / 2

/-- Between two integers, `q` is one fraction above the lower. -/
theorem ceil_eq_floor_add_one {q : K} (h : Int.fract q ≠ 0) : ⌈q⌉ = ⌊q⌋ + 1 := by
  have hceil := Int.ceil_eq_add_one_sub_fract h
  have hfloor := Int.self_sub_fract q
  have hcast : ((⌈q⌉ : ℤ) : K) = ((⌊q⌋ + 1 : ℤ) : K) := by
    rw [hceil, Int.cast_add, ← hfloor]
    push_cast
    ring
  exact_mod_cast hcast

theorem ceil_eq_floor {q : K} (h : Int.fract q = 0) : ⌈q⌉ = ⌊q⌋ := by
  have hq : (⌊q⌋ : K) = q := (sub_eq_zero.1 ((Int.self_sub_floor q).trans h)).symm
  rw [← hq, Int.ceil_intCast, Int.floor_intCast]

/-- **An integer is rounded to itself, and every other number to one of its neighbours.** -/
theorem Rounding.round_between (r : Rounding) (q : K) : ⌊q⌋ ≤ r.round q ∧ r.round q ≤ ⌈q⌉ := by
  by_cases hf : Int.fract q = 0
  · have hceil := ceil_eq_floor hf
    have hhalf : Int.fract q < 1 / 2 := by
      rw [hf]
      positivity
    cases r <;> simp only [round, truncate, hhalf, hceil, ↓reduceIte, ite_self, le_refl, and_self]
  · have hceil := ceil_eq_floor_add_one hf
    cases r with
    | towardZero =>
      simp only [round, truncate]
      split_ifs <;> omega
    | down => simp only [round]; omega
    | up => simp only [round]; omega
    | nearestEven =>
      simp only [round]
      split_ifs <;> omega
    | nearestAway =>
      simp only [round]
      split_ifs <;> omega

theorem Rounding.le_round (r : Rounding) {q : K} {n : ℤ} (h : (n : K) ≤ q) : n ≤ r.round q :=
  (Int.le_floor.2 h).trans (r.round_between q).1

theorem Rounding.round_le (r : Rounding) {q : K} {n : ℤ} (h : q ≤ n) : r.round q ≤ n :=
  (r.round_between q).2.trans (Int.ceil_le.2 h)

/-- **A direction agrees with truncation where it drops the fraction.** -/
theorem Rounding.round_eq_truncate (r : Rounding) (q : K) : r.round q = truncate q ↔ r.Drops q := by
  have hfloor := Int.self_sub_floor q
  have hnonneg := Int.fract_nonneg q
  have hlt := Int.fract_lt_one q
  by_cases hf : Int.fract q = 0
  · -- an integer
    have hceil := ceil_eq_floor hf
    have htrunc : truncate q = ⌊q⌋ := by
      unfold truncate
      rw [hceil, ite_self]
    have hround : r.round q = truncate q := by
      have hbetween := r.round_between q
      omega
    have habs : |q - truncate q| = 0 := by rw [htrunc, hfloor, hf, abs_zero]
    refine iff_of_true hround ?_
    cases r <;> simp [Drops, habs, hf]
  have hceil := ceil_eq_floor_add_one hf
  rcases le_or_gt 0 q with hq | hq
  · have htrunc : truncate q = ⌊q⌋ := if_pos hq
    have habs : |q - truncate q| = Int.fract q := by rw [htrunc, hfloor, abs_of_nonneg hnonneg]
    cases r with
    | towardZero => exact iff_of_true rfl trivial
    | down => exact iff_of_true htrunc.symm (.inl hq)
    | up =>
      refine iff_of_false (by simp only [round]; omega) ?_
      rintro (h | h)
      · exact hf (by rw [le_antisymm h hq, Int.fract_zero])
      · exact hf h
    | nearestEven =>
      simp only [round, Drops]
      rw [habs, htrunc]
      generalize (1 / 2 : K) = half
      rcases lt_trichotomy (Int.fract q) half with h | h | h
      · simp [h]
      · by_cases heven : Even ⌊q⌋ <;> simp [h, heven]
      · simp [h, h.not_gt, h.ne']
    | nearestAway =>
      simp only [round, Drops]
      rw [habs, htrunc]
      generalize (1 / 2 : K) = half
      rcases lt_trichotomy (Int.fract q) half with h | h | h
      · simp [h]
      · simp [h, hq]
      · simp [h, h.not_gt]
  · have htrunc : truncate q = ⌊q⌋ + 1 := (if_neg (not_le.2 hq)).trans hceil
    have habs : |q - truncate q| = 1 - Int.fract q := by
      rw [htrunc, Int.cast_add, ← sub_sub, hfloor, Int.cast_one, abs_sub_comm, abs_of_nonneg (sub_nonneg.2 hlt.le)]
    have hnear : 1 - Int.fract q < 1 / 2 ↔ 1 / 2 < Int.fract q := by constructor <;> intro h <;> linarith
    have hmid : 1 - Int.fract q = 1 / 2 ↔ Int.fract q = 1 / 2 := by constructor <;> intro h <;> linarith
    cases r with
    | towardZero => exact iff_of_true rfl trivial
    | down =>
      refine iff_of_false (by simp only [round]; omega) ?_
      rintro (h | h)
      · exact absurd h (not_le.2 hq)
      · exact hf h
    | up => exact iff_of_true (hceil.trans htrunc.symm) (.inl hq.le)
    | nearestEven =>
      simp only [round, Drops]
      rw [habs, htrunc, hnear, hmid]
      generalize (1 / 2 : K) = half
      rcases lt_trichotomy (Int.fract q) half with h | h | h
      · simp [h, h.not_gt, h.ne]
      · rcases Int.even_or_odd ⌊q⌋ with heven | hodd
        · simp [h, heven]
        · have hne := Int.not_even_iff_odd.2 hodd
          simp [h, hne, hodd]
      · simp [h, h.not_gt]
    | nearestAway =>
      simp only [round, Drops]
      rw [habs, htrunc, hnear]
      generalize (1 / 2 : K) = half
      rcases lt_trichotomy (Int.fract q) half with h | h | h
      · simp [h, h.not_gt]
      · simp [h, not_le.2 hq]
      · simp [h, h.not_gt]

end Rounding

end Ieee
