import Mathlib.Data.Fintype.Pigeonhole
import Mathlib.Dynamics.PeriodicPts.Defs
import Mathlib.Logic.Function.Iterate
import Mathlib.Tactic.Common
/-!
# Orbit — where iterating a function on finitely many points leads
-/
namespace Orbit

variable {α : Type} {f : α → α} {P : α → Prop} {x : α}

/-- Of two equal points of an orbit the later one can be skipped. -/
theorem iterate_skip {i j n : Nat} (h : f^[i] x = f^[j] x) (hj : j ≤ n) : f^[n - j + i] x = f^[n] x := by
  rw [Function.iterate_add_apply, h, ← Function.iterate_add_apply, Nat.sub_add_cancel hj]

/-- **An orbit on `k` points that reaches `P` reaches it in fewer than `k` steps.** -/
theorem exists_lt {k : Nat} (code : α → Fin k) (hcode : Function.Injective code) (h : ∃ n, P (f^[n] x)) :
    ∃ n, n < k ∧ P (f^[n] x) := by
  classical
  refine ⟨Nat.find h, ?_, Nat.find_spec h⟩
  by_contra hge
  have hcard : Fintype.card (Fin k) < Fintype.card (Fin (Nat.find h + 1)) := by
    rw [Fintype.card_fin, Fintype.card_fin]
    omega
  obtain ⟨a, b, hab, heq⟩ := Fintype.exists_ne_map_eq_of_card_lt (fun i : Fin (Nat.find h + 1) => code (f^[i.val] x)) hcard
  have hpoint : f^[a.val] x = f^[b.val] x := hcode heq
  have hshort : ∀ i j : Nat, f^[i] x = f^[j] x → i < j → j ≤ Nat.find h → False := by
    intro i j hij hlt hle
    have hP : P (f^[Nat.find h - j + i] x) := (iterate_skip hij hle).symm ▸ Nat.find_spec h
    exact Nat.find_min h (by omega) hP
  have hne : a.val ≠ b.val := fun hv => hab (Fin.ext hv)
  rcases Nat.lt_or_gt_of_ne hne with hlt | hlt
  · exact hshort _ _ hpoint hlt (Nat.lt_succ_iff.1 b.isLt)
  · exact hshort _ _ hpoint.symm hlt (Nat.lt_succ_iff.1 a.isLt)

/-! ## Where an orbit stops -/

/-- The first point of the orbit of `x` where it stops is `y`. -/
def StopsAt (f : α → α) (stop : α → Prop) (x y : α) : Prop := ∃ k, f^[k] x = y ∧ stop y ∧ ∀ j, j < k → ¬ stop (f^[j] x)

section Stops

variable {stop : α → Prop} {y z : α}

theorem stopsAt_self (h : stop x) : StopsAt f stop x y ↔ y = x := by
  constructor
  · rintro ⟨k, rfl, -, hnot⟩
    cases k with
    | zero => rfl
    | succ k => exact absurd h (hnot 0 (Nat.succ_pos k))
  · rintro rfl
    exact ⟨0, rfl, h, fun j hj => (Nat.not_lt_zero j hj).elim⟩

theorem stopsAt_next (h : ¬ stop x) : StopsAt f stop x y ↔ StopsAt f stop (f x) y := by
  constructor
  · rintro ⟨k, hk, hstop, hnot⟩
    cases k with
    | zero =>
      obtain rfl : x = y := hk
      exact absurd hstop h
    | succ k => exact ⟨k, hk, hstop, fun j hj => hnot (j + 1) (Nat.succ_lt_succ hj)⟩
  · rintro ⟨k, hk, hstop, hnot⟩
    refine ⟨k + 1, hk, hstop, fun j hj => ?_⟩
    cases j with
    | zero => exact h
    | succ j => exact hnot j (Nat.lt_of_succ_lt_succ hj)

theorem StopsAt.stops (h : StopsAt f stop x y) : stop y := by
  obtain ⟨k, -, hstop, -⟩ := h
  exact hstop

theorem StopsAt.unique (hy : StopsAt f stop x y) (hz : StopsAt f stop x z) : y = z := by
  obtain ⟨k, rfl, hk, hbefore⟩ := hy
  obtain ⟨l, rfl, hl, hbefore'⟩ := hz
  rcases Nat.lt_trichotomy k l with h | rfl | h
  · exact absurd hk (hbefore' k h)
  · rfl
  · exact absurd hl (hbefore l h)

theorem exists_stopsAt (h : ∃ n, stop (f^[n] x)) : ∃ y, StopsAt f stop x y := by
  classical
  exact ⟨_, Nat.find h, rfl, Nat.find_spec h, fun j hj => Nat.find_min h hj⟩

/-- The first stop within `n` points. -/
def seek (f : α → α) (stop : α → Prop) [DecidablePred stop] : Nat → α → Option α
  | 0, _ => none
  | n + 1, x => if stop x then some x else seek f stop n (f x)

variable [DecidablePred stop]

theorem seek_some : ∀ {n : Nat} {x : α}, seek f stop n x = some y → StopsAt f stop x y
  | 0, _, h => nomatch h
  | n + 1, x, h => by
    unfold seek at h
    split at h
    next hstop =>
      obtain rfl := Option.some.inj h
      exact (stopsAt_self hstop).2 rfl
    next hgo => exact (stopsAt_next hgo).2 (seek_some h)

theorem seek_of_lt : ∀ {k n : Nat} {x : α}, k < n → stop (f^[k] x) → ∃ y, seek f stop n x = some y
  | k, n + 1, x, hk, h => by
    unfold seek
    split
    · exact ⟨x, rfl⟩
    next hgo =>
      cases k with
      | zero => exact absurd h hgo
      | succ k => exact seek_of_lt (Nat.lt_of_succ_lt_succ hk) h

/-- **As many points as there are suffice to find where an orbit stops.** -/
theorem seek_eq_some {n : Nat} (code : α → Fin n) (hcode : Function.Injective code) :
    seek f stop n x = some y ↔ StopsAt f stop x y := by
  refine ⟨seek_some, fun h => ?_⟩
  have hreach : ∃ k, stop (f^[k] x) := by
    obtain ⟨k, rfl, hstop, -⟩ := h
    exact ⟨k, hstop⟩
  obtain ⟨k, hk, hstop⟩ := exists_lt code hcode hreach
  obtain ⟨z, hz⟩ := seek_of_lt hk hstop
  rw [hz, h.unique (seek_some hz)]

end Stops

/-! ## Where an orbit comes on its way to a stop -/

/-- The orbit of `x` comes to `y`, and does not stop before. -/
def ComesTo (f : α → α) (stop : α → Prop) (x y : α) : Prop := ∃ k, f^[k] x = y ∧ ∀ j, j < k → ¬ stop (f^[j] x)

/-- The orbit of `x` comes back to `x`. -/
def ComesBack (f : α → α) (stop : α → Prop) (x : α) : Prop := ∃ k, 0 < k ∧ f^[k] x = x ∧ ∀ j, j < k → ¬ stop (f^[j] x)

section Comes

variable {stop : α → Prop} {y : α}

theorem comesTo_self (x : α) : ComesTo f stop x x := ⟨0, rfl, fun j hj => (Nat.not_lt_zero j hj).elim⟩

theorem comesTo_next (hx : ¬ stop x) (h : ComesTo f stop (f x) y) : ComesTo f stop x y := by
  obtain ⟨k, hk, hnot⟩ := h
  refine ⟨k + 1, hk, fun j hj => ?_⟩
  cases j with
  | zero => exact hx
  | succ j => exact hnot j (Nat.lt_of_succ_lt_succ hj)

theorem comesTo_cases (h : ComesTo f stop x y) : y = x ∨ ¬ stop x ∧ ComesTo f stop (f x) y := by
  obtain ⟨k, hk, hnot⟩ := h
  cases k with
  | zero => exact .inl hk.symm
  | succ k => exact .inr ⟨hnot 0 (Nat.succ_pos k), k, hk, fun j hj => hnot (j + 1) (Nat.succ_lt_succ hj)⟩

/-- **An orbit on finitely many points stops** exactly when it comes to no point that it comes back to. -/
theorem stops_iff [Finite α] : (∃ y, StopsAt f stop x y) ↔ ∀ y, ComesTo f stop x y → ¬ ComesBack f stop y := by
  constructor
  · rintro ⟨z, k, rfl, hstop, -⟩ y ⟨i, rfl, hnot⟩ ⟨n, hn, hperiod, hloop⟩
    have hik : i ≤ k := Nat.le_of_not_lt fun h => hnot k h hstop
    have hmod : f^[(k - i) % n] (f^[i] x) = f^[k] x := by
      rw [Function.IsPeriodicPt.iterate_mod_apply hperiod, ← Function.iterate_add_apply, Nat.sub_add_cancel hik]
    exact hloop _ (Nat.mod_lt _ hn) (hmod.symm ▸ hstop)
  · intro h
    by_contra hnone
    have hnever : ∀ k, ¬ stop (f^[k] x) := fun k hk => hnone (exists_stopsAt ⟨k, hk⟩)
    have hback : ∀ i j : Nat, i < j → f^[i] x = f^[j] x → False := by
      intro i j hij heq
      refine h (f^[i] x) ⟨i, rfl, fun l _ => hnever l⟩ ⟨j - i, by omega, ?_, fun l _ => ?_⟩
      · rw [← Function.iterate_add_apply, Nat.sub_add_cancel (Nat.le_of_lt hij), heq]
      · rw [← Function.iterate_add_apply]
        exact hnever (l + i)
    obtain ⟨i, j, hne, heq⟩ := Finite.exists_ne_map_eq_of_infinite fun k => f^[k] x
    rcases Nat.lt_or_gt_of_ne hne with hlt | hlt
    · exact hback i j hlt heq
    · exact hback j i hlt heq.symm

variable {β : Type} (touch : α → List β)

/-- A seek that keeps what it touches. -/
def seekLog (f : α → α) (stop : α → Prop) [DecidablePred stop] : Nat → α → Option (α × List β)
  | 0, _ => none
  | n + 1, x =>
    if stop x then some (x, touch x) else (seekLog f stop n (f x)).map fun r => (r.1, touch x ++ r.2)

variable [DecidablePred stop] {touch}

theorem seekLog_fst (touch : α → List β) : ∀ (n : Nat) (x : α), (seekLog touch f stop n x).map Prod.fst = seek f stop n x
  | 0, _ => rfl
  | n + 1, x => by
    unfold seekLog seek
    split
    · rfl
    · rw [← seekLog_fst touch n (f x), Option.map_map]
      rfl

theorem seekLog_mem (b : β) : ∀ {n : Nat} {x y : α} {l : List β}, seekLog touch f stop n x = some (y, l) →
    (b ∈ l ↔ ∃ z, ComesTo f stop x z ∧ b ∈ touch z)
  | 0, _, _, _, h => nomatch h
  | n + 1, x, y, l, h => by
    unfold seekLog at h
    split at h
    next hstop =>
      obtain ⟨rfl, rfl⟩ := Prod.mk.inj (Option.some.inj h)
      constructor
      · exact fun hb => ⟨_, comesTo_self _, hb⟩
      · rintro ⟨z, hz, hb⟩
        rcases comesTo_cases hz with rfl | ⟨hgo, -⟩
        · exact hb
        · exact absurd hstop hgo
    next hgo =>
      obtain ⟨⟨w, m⟩, hr, heq⟩ := Option.map_eq_some_iff.1 h
      obtain ⟨rfl, rfl⟩ := Prod.mk.inj heq
      rw [List.mem_append, seekLog_mem b hr]
      constructor
      · rintro (hb | ⟨z, hz, hb⟩)
        · exact ⟨x, comesTo_self x, hb⟩
        · exact ⟨z, comesTo_next hgo hz, hb⟩
      · rintro ⟨z, hz, hb⟩
        rcases comesTo_cases hz with rfl | ⟨-, hnext⟩
        · exact .inl hb
        · exact .inr ⟨z, hnext, hb⟩

theorem seekLog_mono : ∀ {n m : Nat} {x : α} {r : α × List β}, n ≤ m → seekLog touch f stop n x = some r →
    seekLog touch f stop m x = some r
  | 0, _, _, _, _, h => nomatch h
  | n + 1, 0, _, _, hle, _ => absurd hle (Nat.not_succ_le_zero n)
  | n + 1, m + 1, x, r, hle, h => by
    unfold seekLog at h ⊢
    split
    next hstop =>
      rw [if_pos hstop] at h
      exact h
    next hgo =>
      rw [if_neg hgo] at h
      obtain ⟨r', hr, rfl⟩ := Option.map_eq_some_iff.1 h
      rw [seekLog_mono (Nat.le_of_succ_le_succ hle) hr]
      rfl

/-- **A seek ends, and touches only what is allowed**, exactly when the orbit stops and all points it comes to touch only
that. -/
theorem seekLog_allowed (P : β → Prop) : (∃ n l, seekLog touch f stop n x = some (y, l) ∧ ∀ b ∈ l, P b) ↔
    StopsAt f stop x y ∧ ∀ z, ComesTo f stop x z → ∀ b ∈ touch z, P b := by
  constructor
  · rintro ⟨n, l, hrun, hall⟩
    refine ⟨seek_some (n := n) ?_, fun z hz b hb => hall b ((seekLog_mem b hrun).2 ⟨z, hz, hb⟩)⟩
    rw [← seekLog_fst touch, hrun]
    rfl
  · rintro ⟨hstop, hall⟩
    have hends : ∃ n, seek f stop n x = some y := by
      have hat := hstop
      obtain ⟨k, hk, hat, -⟩ := hat
      obtain ⟨z, hz⟩ := seek_of_lt (Nat.lt_succ_self k) (hk.symm ▸ hat)
      exact ⟨k + 1, hz.trans (congrArg some ((seek_some hz).unique hstop))⟩
    obtain ⟨n, hn⟩ := hends
    rw [← seekLog_fst touch] at hn
    obtain ⟨⟨w, l⟩, hrun, rfl⟩ := Option.map_eq_some_iff.1 hn
    refine ⟨n, l, hrun, fun b hb => ?_⟩
    obtain ⟨z, hz, hbz⟩ := (seekLog_mem b hrun).1 hb
    exact hall z hz b hbz

end Comes

end Orbit
