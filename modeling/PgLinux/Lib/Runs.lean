import Mathlib.Data.List.Basic
/-!
# Runs — what holds along a run of events

`evs.foldl step s` is the state after `evs`; the states of the run are those after its prefixes.
-/
namespace Runs

variable {σ ε : Type}

/-- `P` in every state of the run. -/
def Along (step : σ → ε → σ) (P : σ → Prop) (s : σ) (evs : List ε) : Prop :=
  ∀ pre, pre <+: evs → P (pre.foldl step s)

/-- No event of the run is bad where it happens. -/
def Avoids (step : σ → ε → σ) (Bad : σ → ε → Prop) (s : σ) (evs : List ε) : Prop :=
  ∀ pre e, pre ++ [e] <+: evs → ¬ Bad (pre.foldl step s) e

section Along

variable {step : σ → ε → σ} {P : σ → Prop} {Bad : σ → ε → Prop} {s : σ}

@[simp] theorem along_nil : Along step P s [] ↔ P s := by simp [Along]

@[simp] theorem avoids_nil : Avoids step Bad s [] := by simp [Avoids]

theorem along_cons (e : ε) (evs : List ε) : Along step P s (e :: evs) ↔ P s ∧ Along step P (step s e) evs := by
  constructor
  · intro h
    refine ⟨h [] (List.nil_prefix), fun pre hpre => ?_⟩
    exact h (e :: pre) (List.cons_prefix_cons.2 ⟨rfl, hpre⟩)
  · rintro ⟨hs, h⟩ pre hpre
    cases pre with
    | nil => exact hs
    | cons a pre =>
      obtain ⟨rfl, hrest⟩ := List.cons_prefix_cons.1 hpre
      exact h pre hrest

theorem avoids_cons (e : ε) (evs : List ε) :
    Avoids step Bad s (e :: evs) ↔ ¬ Bad s e ∧ Avoids step Bad (step s e) evs := by
  constructor
  · intro h
    refine ⟨h [] e (by simp), fun pre a hpre => ?_⟩
    exact h (e :: pre) a (List.cons_prefix_cons.2 ⟨rfl, hpre⟩)
  · rintro ⟨hs, h⟩ pre a hpre
    cases pre with
    | nil =>
      obtain ⟨rfl, -⟩ := List.cons_prefix_cons.1 hpre
      exact hs
    | cons b pre =>
      obtain ⟨rfl, hrest⟩ := List.cons_prefix_cons.1 hpre
      exact h pre a hrest

/-- A run can be looked through. -/
instance decidableAvoids [∀ s e, Decidable (Bad s e)] : ∀ (s : σ) (evs : List ε), Decidable (Avoids step Bad s evs)
  | _, [] => isTrue avoids_nil
  | s, e :: evs =>
    have := decidableAvoids (step s e) evs
    decidable_of_iff _ (avoids_cons e evs).symm

theorem avoids_append (evs evs' : List ε) :
    Avoids step Bad s (evs ++ evs') ↔ Avoids step Bad s evs ∧ Avoids step Bad (evs.foldl step s) evs' := by
  induction evs generalizing s with
  | nil => simp
  | cons e evs ih => rw [List.cons_append, avoids_cons, avoids_cons, ih, and_assoc, List.foldl_cons]

/-- **An invariant that events which are not bad preserve holds along every run without bad events.** -/
theorem along_of_avoids (hstep : ∀ s e, P s → ¬ Bad s e → P (step s e)) (hs : P s) {evs : List ε}
    (h : Avoids step Bad s evs) : Along step P s evs := by
  induction evs generalizing s with
  | nil => exact along_nil.2 hs
  | cons e evs ih =>
    obtain ⟨he, hrest⟩ := (avoids_cons e evs).1 h
    exact (along_cons e evs).2 ⟨hs, ih (hstep s e hs he) hrest⟩

/-- **Where, under an invariant, a step keeps `P` and is not wrong exactly when its event is not bad, so does a run.** -/
theorem along_and_avoids_iff {I : σ → Prop} {W : σ → ε → Prop} (hinv : ∀ s e, I s → I (step s e))
    (hstep : ∀ s e, I s → P s → ((P (step s e) ∧ ¬ W s e) ↔ ¬ Bad s e)) (hi : I s) (hs : P s) (evs : List ε) :
    (Along step P s evs ∧ Avoids step W s evs) ↔ Avoids step Bad s evs := by
  induction evs generalizing s with
  | nil => simp [hs]
  | cons e evs ih =>
    rw [along_cons, avoids_cons, avoids_cons]
    constructor
    · rintro ⟨⟨-, h⟩, hwrong, hrest⟩
      have he : P (step s e) := h [] (List.nil_prefix)
      exact ⟨(hstep s e hi hs).1 ⟨he, hwrong⟩, (ih (hinv s e hi) he).1 ⟨h, hrest⟩⟩
    · rintro ⟨hbad, hrest⟩
      obtain ⟨he, hwrong⟩ := (hstep s e hi hs).2 hbad
      obtain ⟨h, hrest⟩ := (ih (hinv s e hi) he).2 hrest
      exact ⟨⟨hs, h⟩, hwrong, hrest⟩

/-- **Where, under an invariant of the steps that are not excluded, an event is wrong exactly when it is bad, so it is along
every run that excludes the others.** -/
theorem avoids_iff_avoids {I : σ → Prop} {V W : σ → ε → Prop}
    (hstep : ∀ s e, I s → ¬ V s e → I (step s e) ∧ (W s e ↔ Bad s e)) (hi : I s) {evs : List ε}
    (hv : Avoids step V s evs) : Avoids step W s evs ↔ Avoids step Bad s evs := by
  induction evs generalizing s with
  | nil => simp
  | cons e evs ih =>
    obtain ⟨he, hrest⟩ := (avoids_cons e evs).1 hv
    obtain ⟨hi', hiff⟩ := hstep s e hi he
    rw [avoids_cons, avoids_cons, hiff, ih hi' hrest]

theorem Along.mono {Q : σ → Prop} (hq : ∀ s, P s → Q s) {evs : List ε} (h : Along step P s evs) : Along step Q s evs :=
  fun pre hpre => hq _ (h pre hpre)

/-- **Where, under an invariant, a step keeps `P` exactly when its event is not bad, a run keeps `P` exactly when it has
no bad event.** -/
theorem along_iff_avoids {I : σ → Prop} (hinv : ∀ s e, I s → I (step s e))
    (hstep : ∀ s e, I s → P s → (P (step s e) ↔ ¬ Bad s e)) (hi : I s) (hs : P s) (evs : List ε) :
    Along step P s evs ↔ Avoids step Bad s evs := by
  have hnone : Avoids step (fun _ _ => False) s evs := fun _ _ _ => id
  rw [← along_and_avoids_iff (W := fun _ _ => False) hinv (fun s e hi hs => by simp [hstep s e hi hs]) hi hs evs]
  exact ⟨fun h => ⟨h, hnone⟩, And.left⟩

end Along

end Runs
