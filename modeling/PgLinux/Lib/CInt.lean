import Mathlib.Algebra.Group.Int.Defs
import Mathlib.Tactic.Common
/-!
# CInt — the partial integer arithmetic of C

An operation on a signed type is undefined where its type does not hold the result, and a division where its divisor is
zero; `none` stands for both.  Unsigned arithmetic wraps, as a `BitVec` does, and is partial only in division.
-/
namespace CInt

variable {w : Nat}

/-- Whether a signed type of `w` bits holds `n`. -/
def Fits (w : Nat) (n : Int) : Prop := -2 ^ (w - 1) ≤ n ∧ n < 2 ^ (w - 1)

instance (w : Nat) (n : Int) : Decidable (Fits w n) := inferInstanceAs (Decidable (_ ∧ _))

/-- A signed expression of value `n`. -/
def signed (w : Nat) (n : Int) : Option (BitVec w) := if Fits w n then some (BitVec.ofInt w n) else none

def mul (a b : BitVec w) : Option (BitVec w) := signed w (a.toInt * b.toInt)

def div (a b : BitVec w) : Option (BitVec w) := if b = 0 then none else signed w (a.toInt.tdiv b.toInt)

/-- The remainder is undefined where the quotient is. -/
def rem (a b : BitVec w) : Option (BitVec w) := (div a b).map fun _ => BitVec.ofInt w (a.toInt.tmod b.toInt)

def udiv (a b : BitVec w) : Option (BitVec w) := if b = 0 then none else some (a / b)
def urem (a b : BitVec w) : Option (BitVec w) := if b = 0 then none else some (a % b)

/-- The one quotient that does not fit: the most negative number divided by -1. -/
def DivOverflows (a b : BitVec w) : Prop := a = BitVec.intMin w ∧ b = -1

instance (a b : BitVec w) : Decidable (DivOverflows a b) := inferInstanceAs (Decidable (_ ∧ _))

theorem fits_toInt (hw : 0 < w) (a : BitVec w) : Fits w a.toInt := by
  have hlo := @BitVec.le_two_mul_toInt w a
  have hhi := @BitVec.two_mul_toInt_lt w a
  obtain ⟨v, rfl⟩ : ∃ v, w = v + 1 := ⟨w - 1, by omega⟩
  rw [Int.pow_succ] at hlo hhi
  unfold Fits
  rw [Nat.add_sub_cancel]
  omega

theorem signed_toInt (hw : 0 < w) (a : BitVec w) : signed w a.toInt = some a := by
  unfold signed
  rw [if_pos (fits_toInt hw a), BitVec.ofInt_toInt]

theorem pos_of_ne_zero {b : BitVec w} (hb : b ≠ 0) : 0 < w := by
  by_contra hw
  obtain rfl : w = 0 := by omega
  exact hb (BitVec.eq_of_zero_length rfl)

/-- **Division is defined but for a zero divisor and the one overflow.** -/
theorem div_eq (a b : BitVec w) : div a b = if b = 0 ∨ DivOverflows a b then none else some (a.sdiv b) := by
  unfold div
  by_cases hb : b = 0
  · rw [if_pos hb, if_pos (.inl hb)]
  · have hw := pos_of_ne_zero hb
    rw [if_neg hb]
    by_cases ho : DivOverflows a b
    · have hpow : (0 : Int) < 2 ^ (w - 1) := Int.pow_pos (by decide)
      have hones : b = BitVec.allOnes w := ho.2.trans BitVec.neg_one_eq_allOnes
      have hq : a.toInt.tdiv b.toInt = 2 ^ (w - 1) := by
        rw [ho.1, hones, BitVec.toInt_intMin_of_pos hw, BitVec.toInt_allOnes, if_pos hw, Int.tdiv_neg, Int.tdiv_one,
          Int.neg_neg]
      have hno : ¬ Fits w (2 ^ (w - 1)) := fun h => Int.lt_irrefl _ h.2
      rw [if_pos (.inr ho), hq]
      exact if_neg hno
    · have hne : a ≠ BitVec.intMin w ∨ b ≠ -1#w := not_and_or.1 ho
      rw [if_neg (not_or.2 ⟨hb, ho⟩), ← BitVec.toInt_sdiv_of_ne_or_ne a b hne]
      exact signed_toInt hw _

theorem rem_eq (a b : BitVec w) : rem a b = if b = 0 ∨ DivOverflows a b then none else some (a.srem b) := by
  unfold rem
  rw [div_eq]
  split
  · rfl
  · rw [← BitVec.toInt_srem, BitVec.ofInt_toInt]
    rfl

theorem div_some {a b v : BitVec w} (h : div a b = some v) : a.sdiv b = v := by
  rw [div_eq] at h
  exact Option.some.inj (Option.ite_none_left_eq_some.1 h).2

theorem rem_some {a b v : BitVec w} (h : rem a b = some v) : a.srem b = v := by
  rw [rem_eq] at h
  exact Option.some.inj (Option.ite_none_left_eq_some.1 h).2

theorem udiv_some {a b v : BitVec w} (h : udiv a b = some v) : a / b = v :=
  Option.some.inj (Option.ite_none_left_eq_some.1 h).2

theorem urem_some {a b v : BitVec w} (h : urem a b = some v) : a % b = v :=
  Option.some.inj (Option.ite_none_left_eq_some.1 h).2

theorem toInt_sdiv {a b : BitVec w} (h : ¬ DivOverflows a b) : (a.sdiv b).toInt = a.toInt.tdiv b.toInt :=
  BitVec.toInt_sdiv_of_ne_or_ne a b (not_and_or.1 h)

/-- **A product in twice the width is defined**, and it is the product of the two numbers. -/
theorem mul_signExtend (hw : 0 < w) (a b : BitVec w) :
    mul (a.signExtend (w * 2)) (b.signExtend (w * 2)) = some (BitVec.ofInt (w * 2) (a.toInt * b.toInt)) := by
  have hle : w ≤ w * 2 := by omega
  have hlo : -2 ^ (w * 2 - 2) ≤ a.toInt * b.toInt := BitVec.le_toInt_mul_toInt
  have hhi : a.toInt * b.toInt ≤ 2 ^ (w * 2 - 2) := BitVec.toInt_mul_toInt_le
  have hpow : (2 : Int) ^ (w * 2 - 1) = 2 ^ (w * 2 - 2) * 2 := by
    rw [← Int.pow_succ]
    congr 1
    omega
  have hpos : (0 : Int) < 2 ^ (w * 2 - 2) := Int.pow_pos (by decide)
  unfold mul signed
  rw [BitVec.toInt_signExtend_of_le hle, BitVec.toInt_signExtend_of_le hle]
  refine if_pos ⟨?_, ?_⟩ <;> omega

end CInt
