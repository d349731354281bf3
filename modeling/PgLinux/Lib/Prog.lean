import Mathlib.Logic.Relation
/-!
# Prog — rules for programs that may stop

`EStateM ε σ α` keeps the state it stops in.  `Leads R m` bounds what a run of `m` does to the state: `R` is a preorder,
so a frame ("only these fields change") and the runs of a step relation are both instances.
-/
namespace Prog

variable {ε σ α β : Type}

/-- The state a run ends in, whether it returns or stops. -/
def final : EStateM.Result ε σ α → σ
  | .ok _ s => s
  | .error _ s => s

/-- What a run returns. -/
def answer : EStateM.Result ε σ α → Option α
  | .ok a _ => some a
  | .error _ _ => none

/-- What a run stops with. -/
def failure : EStateM.Result ε σ α → Option ε
  | .ok _ _ => none
  | .error e _ => some e

theorem eq_ok_of_answer {r : EStateM.Result ε σ α} {a : α} (h : answer r = some a) : r = .ok a (final r) := by
  cases r with
  | ok b s =>
    cases h
    rfl
  | error e s => cases h

theorem eq_error_of_failure {r : EStateM.Result ε σ α} {e : ε} (h : failure r = some e) : r = .error e (final r) := by
  cases r with
  | ok b s => cases h
  | error d s =>
    cases h
    rfl

/-- Every run of `m` ends in a state related to the one it starts in. -/
def Leads (R : σ → σ → Prop) (m : EStateM ε σ α) : Prop := ∀ s, R s (final (m s))

theorem get_bind_apply (f : σ → EStateM ε σ β) (s : σ) : (get >>= f) s = f s s := rfl

/-! ## One step of a sequence -/

section Bind

variable {m : EStateM ε σ α} {f : α → EStateM ε σ β} {s t : σ} {a : α} {b : β} {e : ε}

theorem bind_of_ok (h : m s = .ok a t) : (m >>= f) s = f a t := by
  show EStateM.bind m f s = _
  unfold EStateM.bind
  rw [h]

theorem bind_of_error (h : m s = .error e t) : (m >>= f) s = .error e t := by
  show EStateM.bind m f s = _
  unfold EStateM.bind
  rw [h]

/-- **A sequence that returns returns from both its parts.** -/
theorem bind_eq_ok : (m >>= f) s = .ok b t ↔ ∃ a r, m s = .ok a r ∧ f a r = .ok b t := by
  constructor
  · intro h
    cases hm : m s with
    | ok a r =>
      rw [bind_of_ok hm] at h
      exact ⟨a, r, rfl, h⟩
    | error e r =>
      rw [bind_of_error hm] at h
      cases h
  · rintro ⟨a, r, hm, hf⟩
    rw [bind_of_ok hm, hf]

/-- **A sequence that stops stops in one of its parts.** -/
theorem bind_eq_error : (m >>= f) s = .error e t ↔ m s = .error e t ∨ ∃ a r, m s = .ok a r ∧ f a r = .error e t := by
  constructor
  · intro h
    cases hm : m s with
    | ok a r =>
      rw [bind_of_ok hm] at h
      exact .inr ⟨a, r, rfl, h⟩
    | error e r =>
      rw [bind_of_error hm] at h
      cases h
      exact .inl rfl
  · rintro (hm | ⟨a, r, hm, hf⟩)
    · exact bind_of_error hm
    · rw [bind_of_ok hm, hf]

/-- Its first part, if the second never stops. -/
theorem bind_error_iff (hf : ∀ a s, ∃ b t, f a s = .ok b t) : (m >>= f) s = .error e t ↔ m s = .error e t := by
  rw [bind_eq_error, or_iff_left_iff_imp]
  rintro ⟨a, r, -, h⟩
  obtain ⟨b, u, hok⟩ := hf a r
  rw [hok] at h
  cases h

end Bind

/-! ## Rounds -/

/-- **A loop of `n` rounds stops** where the first of them does.  Round `i` tries `t i` and, if that returns, goes on. -/
theorem rounds_error_iff (t : Nat → EStateM ε σ β) (run : Nat → Nat → α → EStateM ε σ α)
    (hzero : ∀ i a s, run 0 i a s = .ok a s)
    (hstop : ∀ i a s e s', t i s = .error e s' → ∀ n, run (n + 1) i a s = .error e s')
    (hgo : ∀ i a s b s', t i s = .ok b s' → ∃ a' u, ∀ n, run (n + 1) i a s = run n (i + 1) a' u) {e : ε} {s' : σ} :
    ∀ (n i : Nat) (a : α) (s : σ), run n i a s = .error e s' ↔
      ∃ j < n, ∃ a' u, run j i a s = .ok a' u ∧ t (i + j) u = .error e s'
  | 0, i, a, s => by
    rw [hzero]
    constructor
    · intro h
      cases h
    · rintro ⟨j, hj, -⟩
      omega
  | n + 1, i, a, s => by
    cases ht : t i s with
    | error d r =>
      have hat := hstop i a s d r ht
      rw [hat]
      constructor
      · intro h
        exact ⟨0, by omega, a, s, hzero i a s, ht.trans (by cases h; rfl)⟩
      · rintro ⟨_ | j, -, a', u, hrun, he⟩
        · rw [hzero] at hrun
          cases hrun
          cases ht.symm.trans he
          rfl
        · rw [hat] at hrun
          cases hrun
    | ok b r =>
      obtain ⟨a', u, hnext⟩ := hgo i a s b r ht
      rw [hnext, rounds_error_iff t run hzero hstop hgo]
      constructor
      · rintro ⟨j, hj, a₂, v, hrun, he⟩
        refine ⟨j + 1, by omega, a₂, v, (hnext j).trans hrun, ?_⟩
        rw [← Nat.add_right_comm] at he
        exact he
      · rintro ⟨_ | j, hj, a₂, v, hrun, he⟩
        · rw [hzero] at hrun
          cases hrun
          cases ht.symm.trans he
        · rw [hnext] at hrun
          rw [← Nat.add_assoc, Nat.add_right_comm] at he
          exact ⟨j, by omega, a₂, v, hrun, he⟩

section Leads

variable {R : σ → σ → Prop}

theorem Leads.mono {Q : σ → σ → Prop} {m : EStateM ε σ α} (h : Leads R m) (hq : ∀ s t, R s t → Q s t) : Leads Q m :=
  fun s => hq s _ (h s)

theorem leads_modify {f : σ → σ} (h : ∀ s, R s (f s)) : Leads R (modify f : EStateM ε σ PUnit) := h

theorem leads_get_bind {f : σ → EStateM ε σ β} (h : ∀ s, Leads R (f s)) : Leads R (get >>= f) := fun s => h s s

theorem leads_ite_of {p : Prop} [Decidable p] {m n : EStateM ε σ α} (hm : p → Leads R m) (hn : ¬ p → Leads R n) :
    Leads R (if p then m else n) := by
  split
  next h => exact hm h
  next h => exact hn h

theorem leads_ite {p : Prop} [Decidable p] {m n : EStateM ε σ α} (hm : Leads R m) (hn : Leads R n) :
    Leads R (if p then m else n) := leads_ite_of (fun _ => hm) fun _ => hn

/-- A sequence whose two parts are bounded by different relations. -/
theorem leads_bind_comp {P Q : σ → σ → Prop} {m : EStateM ε σ α} {f : α → EStateM ε σ β} (hm : Leads P m)
    (hf : ∀ a, Leads Q (f a)) (hcomp : ∀ s t u, P s t → Q t u → R s u) (hstop : ∀ s t, P s t → R s t) :
    Leads R (m >>= f) := by
  intro s
  have h := hm s
  change R s (final (EStateM.bind m f s))
  unfold EStateM.bind
  cases hms : m s with
  | ok a t =>
    rw [hms] at h
    exact hcomp s t _ h (hf a t)
  | error e t =>
    rw [hms] at h
    exact hstop s t h

variable [IsPreorder σ R]

theorem leads_pure (a : α) : Leads R (pure a : EStateM ε σ α) := fun s => refl_of R s

theorem leads_throw (e : ε) : Leads R (throw e : EStateM ε σ α) := fun s => refl_of R s

/-- **A sequence leads where its parts lead.** -/
theorem leads_bind {m : EStateM ε σ α} {f : α → EStateM ε σ β} (hm : Leads R m) (hf : ∀ a, Leads R (f a)) :
    Leads R (m >>= f) :=
  leads_bind_comp hm hf (fun _ _ _ => trans_of R) fun _ _ => id

/-- The same of one run: the second part has what the first one returns and keeps. -/
theorem final_bind {m : EStateM ε σ α} {f : α → EStateM ε σ β} {s : σ} (hm : R s (final (m s)))
    (hf : ∀ a t, m s = .ok a t → R s t → R t (final (f a t))) : R s (final ((m >>= f) s)) := by
  cases h : m s with
  | ok a t =>
    rw [h] at hm
    rw [bind_of_ok h]
    exact trans_of R hm (hf a t h hm)
  | error e t =>
    rw [h] at hm
    rw [bind_of_error h]
    exact hm

end Leads

/-! ## Runs that return and runs that stop -/

/-- A run from `s` that returns has ended in a state related by `R`, one that stopped in a state related by `T`. -/
def Ended (R T : σ → σ → Prop) (s : σ) : EStateM.Result ε σ α → Prop
  | .ok _ t => R s t
  | .error _ t => T s t

/-- Every run of `m` ends so. -/
def Ends (R T : σ → σ → Prop) (m : EStateM ε σ α) : Prop := ∀ s, Ended R T s (m s)

section Ends

variable {R T : σ → σ → Prop}

/-- With one relation for both, that is where the run leads. -/
theorem ends_self {m : EStateM ε σ α} : Ends R R m ↔ Leads R m := by
  have hs (s : σ) : Ended R R s (m s) ↔ R s (final (m s)) := by
    cases m s <;> rfl
  exact forall_congr' hs

theorem ends_modify {f : σ → σ} (h : ∀ s, R s (f s)) : Ends R T (modify f : EStateM ε σ PUnit) := h

theorem ends_get_bind {f : σ → EStateM ε σ β} (h : ∀ s, Ends R T (f s)) : Ends R T (get >>= f) := fun s => h s s

theorem ends_ite {p : Prop} [Decidable p] {m n : EStateM ε σ α} (hm : Ends R T m) (hn : Ends R T n) :
    Ends R T (if p then m else n) := by
  split
  · exact hm
  · exact hn

theorem ends_pure [Std.Refl R] (a : α) : Ends R T (pure a : EStateM ε σ α) := fun s => refl_of R s

/-- **A sequence ends where its parts end**, if what has returned may go on and stop. -/
theorem ends_bind [IsTrans σ R] {m : EStateM ε σ α} {f : α → EStateM ε σ β} (hm : Ends R T m) (hf : ∀ a, Ends R T (f a))
    (hafter : ∀ {s t u}, R s t → T t u → T s u) : Ends R T (m >>= f) := by
  intro s
  have hs := hm s
  cases h : m s with
  | ok a t =>
    have ht := hf a t
    rw [h] at hs
    rw [bind_of_ok h]
    cases hb : f a t with
    | ok b u =>
      rw [hb] at ht
      exact trans_of R hs ht
    | error e u =>
      rw [hb] at ht
      exact hafter hs ht
  | error e t =>
    rw [h] at hs
    rw [bind_of_error h]
    exact hs

end Ends

end Prog
