import Mathlib.Tactic.Common
/-!
# Search — where a pattern occurs in a text with holes

A text of `n` cells gives a symbol or nothing at each of them.  A scan with a partial match holds a candidate, and how
much of the pattern it has found there.
-/
namespace Search

variable {α : Type} {text : Nat → Option α} {pat : List α} {n : Nat}

/-- The pattern stands at cell `o`, all of it among the `n` cells. -/
structure OccursAt (text : Nat → Option α) (pat : List α) (n o : Nat) : Prop where
  room : o + pat.length ≤ n
  cells : ∀ j b, pat[j]? = some b → text (o + j) = some b

structure FirstAt (text : Nat → Option α) (pat : List α) (n o : Nat) : Prop where
  occurs : OccursAt text pat n o
  least : ∀ o', o' < o → ¬ OccursAt text pat n o'

theorem FirstAt.le {o o' : Nat} (h : FirstAt text pat n o) (ho : OccursAt text pat n o') : o ≤ o' :=
  Nat.le_of_not_lt fun hlt => h.least o' hlt ho

theorem OccursAt.mono {m o : Nat} (h : OccursAt text pat n o) (hnm : n ≤ m) : OccursAt text pat m o :=
  ⟨Nat.le_trans h.room hnm, h.cells⟩

theorem OccursAt.congr {text' : Nat → Option α} {o : Nat} (h : OccursAt text pat n o)
    (heq : ∀ i, i < n → text' i = text i) : OccursAt text' pat n o := by
  refine ⟨h.room, fun j b hb => ?_⟩
  have hj : j < pat.length := (List.getElem?_eq_some_iff.1 hb).1
  have hroom := h.room
  rw [heq (o + j) (by omega)]
  exact h.cells j b hb

theorem FirstAt.congr {text' : Nat → Option α} {o : Nat} (h : FirstAt text pat n o)
    (heq : ∀ i, i < n → text' i = text i) : FirstAt text' pat n o :=
  ⟨h.occurs.congr heq, fun o' ho' hocc => h.least o' ho' (hocc.congr fun i hi => (heq i hi).symm)⟩

theorem not_occursAt_of_ne {o j : Nat} {b : α} (hb : pat[j]? = some b) (hne : text (o + j) ≠ some b) :
    ¬ OccursAt text pat n o := fun h => hne (h.cells j b hb)

/-- A cell that has nothing to read is in no occurrence. -/
theorem not_occursAt_of_hole {o i : Nat} (hlo : o ≤ i) (hhi : i < o + pat.length) (hhole : text i = none) :
    ¬ OccursAt text pat n o := by
  have hj : i - o < pat.length := by omega
  refine not_occursAt_of_ne (List.getElem?_eq_getElem hj) ?_
  rw [Nat.add_sub_cancel' hlo, hhole]
  exact nofun

/-! ## Texts without holes -/

/-- The cells of a list. -/
def listCells (l : List α) (i : Nat) : Option α := l[i]?

theorem occursAt_iff_take {l : List α} (hpat : pat ≠ []) (o : Nat) :
    OccursAt (listCells l) pat l.length o ↔ (l.drop o).take pat.length = pat := by
  have hpos : 0 < pat.length := List.length_pos_iff.2 hpat
  constructor
  · intro h
    refine List.ext_getElem? fun j => ?_
    rcases Nat.lt_or_ge j pat.length with hj | hj
    · rw [List.getElem?_take_of_lt hj, List.getElem?_drop, List.getElem?_eq_getElem hj]
      exact h.cells j _ (List.getElem?_eq_getElem hj)
    · rw [List.getElem?_eq_none hj, List.getElem?_eq_none (Nat.le_trans (List.length_take_le _ _) hj)]
  · intro h
    have hlen : min pat.length (l.length - o) = pat.length := by rw [← List.length_drop, ← List.length_take, h]
    refine ⟨by omega, fun j b hb => ?_⟩
    have hj : j < pat.length := (List.getElem?_eq_some_iff.1 hb).1
    unfold listCells
    rw [← List.getElem?_drop, ← List.getElem?_take_of_lt hj, h]
    exact hb

/-- An occurrence stays where it is when the list grows. -/
theorem OccursAt.of_prefix {l l' : List α} {o : Nat} (h : OccursAt (listCells l) pat l.length o) (hpre : l <+: l') :
    OccursAt (listCells l') pat l'.length o := by
  obtain ⟨t, rfl⟩ := hpre
  refine OccursAt.mono (h.congr fun i hi => ?_) (by rw [List.length_append]; omega)
  exact List.getElem?_append_left hi

/-- An occurrence that ends before the list grew was there. -/
theorem OccursAt.of_grown {l l' : List α} {o : Nat} (h : OccursAt (listCells l') pat l'.length o) (hpre : l <+: l')
    (hend : o + pat.length ≤ l.length) : OccursAt (listCells l) pat l.length o := by
  obtain ⟨t, rfl⟩ := hpre
  refine ⟨hend, fun j b hb => ?_⟩
  have hj : j < pat.length := (List.getElem?_eq_some_iff.1 hb).1
  rw [← h.cells j b hb]
  exact (List.getElem?_append_left (by omega)).symm

/-! ## A scan with a partial match -/

/-- The scan has read up to cell `i`, and `k` symbols of the pattern stand before it.  No cell before the candidate
starts an occurrence. -/
structure Scanned (text : Nat → Option α) (pat : List α) (n i k : Nat) : Prop where
  back : k ≤ i
  proper : k < pat.length
  found : ∀ j b, j < k → pat[j]? = some b → text (i - k + j) = some b
  none_before : ∀ o, o < i - k → ¬ OccursAt text pat n o

theorem Scanned.start (h : pat ≠ []) : Scanned text pat n 0 0 :=
  ⟨Nat.le_refl 0, List.length_pos_iff.2 h, fun _ _ hj => (Nat.not_lt_zero _ hj).elim, fun _ ho => by omega⟩

section Steps

variable {i k : Nat} {b : α}

/-- Nothing of the pattern found, with no occurrence before `i'`. -/
theorem Scanned.restart (h : Scanned text pat n i k) {i' : Nat} (hnone : ∀ o, i - k ≤ o → o < i' → ¬ OccursAt text pat n o) :
    Scanned text pat n i' 0 := by
  refine ⟨Nat.zero_le _, Nat.lt_of_le_of_lt (Nat.zero_le _) h.proper, fun _ _ hj => (Nat.not_lt_zero _ hj).elim, fun o ho => ?_⟩
  rcases Nat.lt_or_ge o (i - k) with hlt | hge
  · exact h.none_before o hlt
  · exact hnone o hge (by omega)

theorem Scanned.found_succ (h : Scanned text pat n i k) (ht : text i = some b) (hb : pat[k]? = some b) {j : Nat} {a : α}
    (hj : j < k + 1) (ha : pat[j]? = some a) : text (i - k + j) = some a := by
  rcases Nat.lt_succ_iff_lt_or_eq.1 hj with hlt | rfl
  · exact h.found j a hlt ha
  · rw [Nat.sub_add_cancel h.back, ht, ← hb, ha]

theorem Scanned.hit (h : Scanned text pat n i k) (ht : text i = some b) (hb : pat[k]? = some b)
    (hmore : k + 1 ≠ pat.length) : Scanned text pat n (i + 1) (k + 1) := by
  have hback := h.back
  have hproper := h.proper
  have hcand : i + 1 - (k + 1) = i - k := by omega
  refine ⟨by omega, by omega, fun j a hj ha => ?_, fun o ho => ?_⟩
  · rw [hcand]
    exact h.found_succ ht hb hj ha
  · exact h.none_before o (by omega)

/-- **The last symbol of the pattern completes its first occurrence.** -/
theorem Scanned.complete (h : Scanned text pat n i k) (hi : i < n) (ht : text i = some b) (hb : pat[k]? = some b)
    (hlast : k + 1 = pat.length) : FirstAt text pat n (i - k) := by
  have hback := h.back
  refine ⟨⟨by omega, fun j a ha => ?_⟩, h.none_before⟩
  have hj : j < pat.length := (List.getElem?_eq_some_iff.1 ha).1
  exact h.found_succ ht hb (by omega) ha

/-- **A symbol that does not match rules out the candidate.** -/
theorem Scanned.miss (h : Scanned text pat n i k) (ht : text i = some b) (hb : pat[k]? ≠ some b) :
    Scanned text pat n (i - k + 1) 0 := by
  refine h.restart fun o hlo hhi => ?_
  obtain rfl : o = i - k := by omega
  refine not_occursAt_of_ne (List.getElem?_eq_getElem h.proper) ?_
  rw [Nat.sub_add_cancel h.back, ht, ← List.getElem?_eq_getElem h.proper]
  exact hb.symm

/-- **A hole rules out every candidate up to it.** -/
theorem Scanned.hole (h : Scanned text pat n i k) (ht : text i = none) : Scanned text pat n (i + 1) 0 := by
  have hproper := h.proper
  have hback := h.back
  exact h.restart fun o hlo hhi => not_occursAt_of_hole (by omega) (by omega) ht

theorem Scanned.exhausted (h : Scanned text pat n i k) (hi : n ≤ i) (o : Nat) : ¬ OccursAt text pat n o := by
  intro ho
  have hproper := h.proper
  have hback := h.back
  have hroom := ho.room
  exact h.none_before o (by omega) ho

end Steps

end Search
