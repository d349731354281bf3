import Mathlib.Data.Nat.ModEq
import Mathlib.Tactic.Common
/-!
# Ring — a log in a ring of slots, under free-running counters

Entry `i` of an unbounded log lives in slot `i % num`.  A counter of `w` bits holds the length of the log modulo `2 ^ w`;
where `num` divides `2 ^ w`, it still names the right slot, and the difference of two counters is the number of entries
between them as long as it fits.  A signed counter names a slot only until it wraps.
-/
namespace Ring

theorem slot_ofNat {w num : Nat} (h : num ∣ 2 ^ w) (i : Nat) : (BitVec.ofNat w i).toNat % num = i % num := by
  rw [BitVec.toNat_ofNat, Nat.mod_mod_of_dvd _ h]

/-- **The difference of two counters is the distance between them**, however often they wrapped. -/
theorem gap_ofNat {w a b : Nat} (hle : a ≤ b) (hlt : b - a < 2 ^ w) :
    (BitVec.ofNat w b - BitVec.ofNat w a).toNat = b - a := by
  have hsplit : BitVec.ofNat w b = BitVec.ofNat w (b - a) + BitVec.ofNat w a := by
    rw [← BitVec.ofNat_add, Nat.sub_add_cancel hle]
  rw [hsplit, BitVec.add_sub_cancel, BitVec.toNat_ofNat, Nat.mod_eq_of_lt hlt]

/-- **The remainder of a signed counter is a slot exactly when the counter is not negative, or is a multiple of the size.** -/
theorem srem_slot_iff {w : Nat} {c num : BitVec w} (hnum : 0 < num.toInt) :
    (0 ≤ (c.srem num).toInt ∧ (c.srem num).toInt < num.toInt) ↔ 0 ≤ c.toInt ∨ num.toInt ∣ c.toInt := by
  have hlt := Int.tmod_lt_of_pos c.toInt hnum
  rw [BitVec.toInt_srem]
  by_cases hc : 0 ≤ c.toInt
  · simp [hc, hlt, Int.tmod_nonneg]
  · have hneg : 0 ≤ Int.tmod (-c.toInt) num.toInt := Int.tmod_nonneg _ (by omega)
    rw [Int.neg_tmod] at hneg
    rw [Int.dvd_iff_tmod_eq_zero]
    omega

/-- Entries less than a round apart are in different slots. -/
theorem slot_ne {num i j : Nat} (hij : i < j) (hround : j < i + num) : i % num ≠ j % num := by
  intro h
  have hdvd : num ∣ j - i := (Nat.modEq_iff_dvd' (Nat.le_of_lt hij)).1 h
  have := Nat.le_of_dvd (by omega) hdvd
  omega

/-- An entry of a log one longer is an old one or the new one. -/
theorem getElem?_concat {α : Type} {log : List α} {x y : α} {i : Nat} (h : (log ++ [x])[i]? = some y) :
    i < log.length ∧ log[i]? = some y ∨ i = log.length ∧ y = x := by
  rcases Nat.lt_trichotomy i log.length with hlt | rfl | hgt
  · rw [List.getElem?_append_left hlt] at h
    exact .inl ⟨hlt, h⟩
  · rw [List.getElem?_concat_length] at h
    exact .inr ⟨rfl, (Option.some.inj h).symm⟩
  · rw [List.getElem?_append_right (by omega), List.getElem?_eq_none (by simp; omega)] at h
    cases h

variable {α : Type} {num lo : Nat} {cells cells' : Nat → α} {log : List α}

/-- The slots hold the entries of `log` from `lo` on. -/
def Holds (cells : Nat → α) (num lo : Nat) (log : List α) : Prop :=
  ∀ i x, lo ≤ i → log[i]? = some x → cells (i % num) = x

theorem Holds.mono (h : Holds cells num lo log) {lo' : Nat} (hle : lo ≤ lo') : Holds cells num lo' log :=
  fun i x hi hx => h i x (Nat.le_trans hle hi) hx

theorem Holds.congr (h : Holds cells num lo log) (hsame : ∀ i, i < num → cells' i = cells i) (hpos : 0 < num) :
    Holds cells' num lo log := by
  intro i x hi hx
  rw [hsame _ (Nat.mod_lt i hpos)]
  exact h i x hi hx

/-- **An entry added in the next slot** keeps those of the last round. -/
theorem Holds.push (h : Holds cells num lo log) {x : α} (hnew : cells' (log.length % num) = x)
    (hold : ∀ i, i < num → i ≠ log.length % num → cells' i = cells i) (hpos : 0 < num) {lo' : Nat} (hlo : lo ≤ lo')
    (hround : log.length < lo' + num) : Holds cells' num lo' (log ++ [x]) := by
  intro i y hi hy
  rcases getElem?_concat hy with ⟨hlt, hy⟩ | ⟨rfl, rfl⟩
  · rw [hold _ (Nat.mod_lt i hpos) (slot_ne hlt (by omega))]
    exact h i y (Nat.le_trans hlo hi) hy
  · exact hnew

end Ring
