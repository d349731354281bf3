import PgLinux.Lib.Prog
/-!
# Commutes — programs that do not see a change of their state

A change `f` of the state that a program does not see can be made before it or after it.
-/
namespace Prog

variable {ε σ α β : Type} {f : σ → σ}

/-- The outcome of a run, its state changed by `f`. -/
def onState (f : σ → σ) : EStateM.Result ε σ α → EStateM.Result ε σ α
  | .ok a s => .ok a (f s)
  | .error e s => .error e (f s)

/-- `m` runs the same from a changed state, and ends in the changed state. -/
def Commutes (f : σ → σ) (m : EStateM ε σ α) : Prop := ∀ s, m (f s) = onState f (m s)

theorem commutes_pure (a : α) : Commutes f (pure a : EStateM ε σ α) := fun _ => rfl

theorem commutes_throw (e : ε) : Commutes f (throw e : EStateM ε σ α) := fun _ => rfl

theorem commutes_modify {g : σ → σ} (h : ∀ s, g (f s) = f (g s)) : Commutes f (modify g : EStateM ε σ PUnit) := fun s => by
  show EStateM.Result.ok PUnit.unit (g (f s)) = .ok PUnit.unit (f (g s))
  rw [h]

/-- What is read of the state does not depend on the change. -/
theorem commutes_get_bind {g : σ → EStateM ε σ β} (hg : ∀ s, Commutes f (g s)) (hsame : ∀ s, g (f s) = g s) :
    Commutes f (get >>= g) := fun s => by
  show g (f s) (f s) = onState f (g s s)
  rw [hsame]
  exact hg s s

theorem commutes_ite {p : Prop} [Decidable p] {m n : EStateM ε σ α} (hm : Commutes f m) (hn : Commutes f n) :
    Commutes f (if p then m else n) := by
  split
  · exact hm
  · exact hn

/-- **A sequence commutes where its parts do.** -/
theorem commutes_bind {m : EStateM ε σ α} {g : α → EStateM ε σ β} (hm : Commutes f m) (hg : ∀ a, Commutes f (g a)) :
    Commutes f (m >>= g) := by
  intro s
  have h := hm s
  cases hrun : m s with
  | ok a t =>
    rw [hrun] at h
    rw [bind_of_ok hrun, bind_of_ok h]
    exact hg a t
  | error e t =>
    rw [hrun] at h
    rw [bind_of_error hrun, bind_of_error h]
    rfl

end Prog
