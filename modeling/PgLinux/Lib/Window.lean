import Mathlib.Data.BitVec
/-!
# Window — masked fields of a word

A window shows the bits of a mask, shifted down to bit 0, and a write through it leaves the other bits alone.
-/
namespace Masked

variable {w : Nat}

/-- No bit of the mask is lost when it is shifted down. -/
structure Window (w : Nat) where
  mask : BitVec w
  shift : Nat
  aligned : (mask >>> shift) <<< shift = mask

/-- A window that shows its bits where they are. -/
def Window.ofMask (mask : BitVec w) : Window w := ⟨mask, 0, by simp⟩

namespace Window

variable (v : Window w)

def get (word : BitVec w) : BitVec w := (word &&& v.mask) >>> v.shift

def put (word val : BitVec w) : BitVec w := (word &&& ~~~v.mask) ||| ((val <<< v.shift) &&& v.mask)

/-- The part of a written value that the window holds. -/
def clip (val : BitVec w) : BitVec w := val &&& (v.mask >>> v.shift)

/-- **What is written is read back, cut to the window.** -/
theorem get_put (word val : BitVec w) : v.get (v.put word val) = v.clip val := by
  apply BitVec.eq_of_getLsbD_eq
  intro i hi
  simp only [get, put, clip, BitVec.getLsbD_ushiftRight, BitVec.getLsbD_and, BitVec.getLsbD_or, BitVec.getLsbD_not,
    BitVec.getLsbD_shiftLeft, Nat.add_sub_cancel_left, Nat.not_lt.2 (Nat.le_add_right v.shift i)]
  by_cases hlt : v.shift + i < w
  · cases v.mask.getLsbD (v.shift + i) <;> simp [hlt]
  · simp [BitVec.getLsbD_of_ge v.mask (v.shift + i) (Nat.not_lt.1 hlt)]

/-- **Outside the window a write changes nothing.** -/
theorem put_outside (word val : BitVec w) : v.put word val &&& ~~~v.mask = word &&& ~~~v.mask := by
  apply BitVec.eq_of_getLsbD_eq
  intro i hi
  simp only [put, BitVec.getLsbD_and, BitVec.getLsbD_or, BitVec.getLsbD_not]
  cases v.mask.getLsbD i <;> simp

/-- **Writing back what is read changes nothing.** -/
theorem put_get (word : BitVec w) : v.put word (v.get word) = word := by
  have hmask (i : Nat) (hi : i < v.shift) : v.mask.getLsbD i = false := by
    rw [← v.aligned]
    simp [hi]
  apply BitVec.eq_of_getLsbD_eq
  intro i hi
  simp only [get, put, BitVec.getLsbD_ushiftRight, BitVec.getLsbD_and, BitVec.getLsbD_or, BitVec.getLsbD_not,
    BitVec.getLsbD_shiftLeft]
  by_cases hlt : i < v.shift
  · rw [hmask i hlt]
    simp [hi]
  · have hsub : v.shift + (i - v.shift) = i := by omega
    rw [hsub]
    cases hm : v.mask.getLsbD i <;> simp [hlt, hi]

/-! ## Windows that do not shift -/

variable (mask word val : BitVec w)

@[simp] theorem get_ofMask : (ofMask mask).get word = word &&& mask := by simp [get, ofMask]

@[simp] theorem put_ofMask : (ofMask mask).put word val = (word &&& ~~~mask) ||| (val &&& mask) := by simp [put, ofMask]

@[simp] theorem clip_ofMask : (ofMask mask).clip val = val &&& mask := by simp [clip, ofMask]

end Window

end Masked
