import Mathlib.Order.OrderIsoNat
/-!
# Loops — loops that run until their body exits

A pass of the body goes round again or exits.  The passes are numbered, and pass `k` takes the input `h k` from outside.
-/
namespace Loops

variable {σ ρ ι : Type}

inductive Pass (σ ρ : Type) where
  | again (s : σ)
  | exit (r : ρ)

def Pass.isExit : Pass σ ρ → Bool
  | .again _ => false
  | .exit _ => true

theorem exists_of_isExit {p : Pass σ ρ} (h : p.isExit = true) : ∃ r, p = .exit r := by
  cases p with
  | again s => cases h
  | exit r => exact ⟨r, rfl⟩

/-- The loop after `k` passes. -/
def after (pass : ι → σ → Pass σ ρ) (h : Nat → ι) (s : σ) : Nat → Pass σ ρ
  | 0 => .again s
  | k + 1 => match after pass h s k with
    | .again t => pass (h k) t
    | .exit r => .exit r

/-- After finitely many passes the loop exits. -/
def Returns (pass : ι → σ → Pass σ ρ) (h : Nat → ι) (s : σ) : Prop := ∃ k r, after pass h s k = .exit r

section After

variable {pass : ι → σ → Pass σ ρ} {h : Nat → ι} {s t : σ}

theorem after_succ {k : Nat} (hk : after pass h s k = .again t) : after pass h s (k + 1) = pass (h k) t := by
  simp [after, hk]

theorem after_again_of_succ {k : Nat} (hk : after pass h s (k + 1) = .again t) :
    ∃ u, after pass h s k = .again u ∧ pass (h k) u = .again t := by
  cases hu : after pass h s k with
  | again u =>
    rw [after_succ hu] at hk
    exact ⟨u, rfl, hk⟩
  | exit r => simp [after, hu] at hk

/-- A state that some pass leaves behind satisfies what passes preserve. -/
theorem after_invariant {P : σ → Prop} (hpass : ∀ i u v, P u → pass i u = .again v → P v) (hs : P s) :
    ∀ {k t}, after pass h s k = .again t → P t
  | 0, t, hk => by
    cases hk
    exact hs
  | k + 1, t, hk => by
    obtain ⟨u, hu, hut⟩ := after_again_of_succ hk
    exact hpass _ u t (after_invariant hpass hs hu) hut

/-- What the loop returns satisfies what exits from the invariant's states do. -/
theorem exit_of_invariant {P : σ → Prop} {Q : ρ → Prop} (hpass : ∀ i u v, P u → pass i u = .again v → P v)
    (hexit : ∀ i u r, P u → pass i u = .exit r → Q r) (hs : P s) :
    ∀ {k r}, after pass h s k = .exit r → Q r
  | 0, _, hk => nomatch hk
  | k + 1, r, hk => by
    cases hu : after pass h s k with
    | again u =>
      rw [after_succ hu] at hk
      exact hexit _ u r (after_invariant hpass hs hu) hk
    | exit q =>
      have hq : after pass h s (k + 1) = .exit q := by simp [after, hu]
      obtain rfl : q = r := by
        rw [hq] at hk
        exact Pass.exit.inj hk
      exact exit_of_invariant hpass hexit hs hu

/-- **A loop whose passes descend along a well-founded relation returns.** -/
theorem returns_of_wellFounded {R : σ → σ → Prop} (hwf : WellFounded R) {P : σ → Prop}
    (hpass : ∀ i u v, P u → pass i u = .again v → P v ∧ R v u) (hs : P s) : Returns pass h s := by
  have hall : ∀ u, P u → ∀ k, after pass h s k = .again u → Returns pass h s := by
    intro u
    induction u using hwf.induction with
    | _ u ih =>
      intro hu k hk
      cases hv : pass (h k) u with
      | again v =>
        obtain ⟨hPv, hvu⟩ := hpass _ u v hu hv
        exact ih v hvu hPv (k + 1) (by rw [after_succ hk, hv])
      | exit r => exact ⟨k + 1, r, by rw [after_succ hk, hv]⟩
  exact hall s hs 0 rfl

theorem again_of_not_returns (hn : ¬ Returns pass h s) (k : Nat) : ∃ t, after pass h s k = .again t := by
  cases hk : after pass h s k with
  | again t => exact ⟨t, rfl⟩
  | exit r => exact absurd ⟨k, r, hk⟩ hn

theorem after_le_of_exit {k : Nat} {r : ρ} (hk : after pass h s k = .exit r) : ∀ j, after pass h s (k + j) = .exit r
  | 0 => hk
  | j + 1 => by
    show (match after pass h s (k + j) with
      | .again t => pass (h (k + j)) t
      | .exit r => .exit r) = _
    rw [after_le_of_exit hk j]

/-- **A loop with an endless chain of passes does not return.** -/
theorem not_returns_of_chain {f : Nat → σ} {k : Nat} (hk : after pass h s k = .again (f 0))
    (hf : ∀ j, pass (h (k + j)) (f j) = .again (f (j + 1))) : ¬ Returns pass h s := by
  have hall : ∀ j, after pass h s (k + j) = .again (f j) := by
    intro j
    induction j with
    | zero => exact hk
    | succ j ih => rw [← Nat.add_assoc, after_succ ih, hf]
  rintro ⟨n, r, hn⟩
  have hexit := after_le_of_exit hn k
  rw [Nat.add_comm, hall n] at hexit
  cases hexit

/-- A sequence that never falls and stays below a bound stops rising. -/
theorem exists_stall {m : Nat → Nat} {b : Nat} (hup : ∀ k, m k ≤ m (k + 1)) (hb : ∀ k, m k ≤ b) :
    ∃ n, ∀ k, n ≤ k → m k = m n := by
  let chain : Nat →o Fin (b + 1) :=
    ⟨fun k => ⟨m k, Nat.lt_succ_of_le (hb k)⟩, fun i j hij => Fin.mk_le_mk.2 (monotone_nat_of_le_succ hup hij)⟩
  obtain ⟨n, hn⟩ := WellFoundedGT.monotone_chain_condition chain
  exact ⟨n, fun k hk => (congrArg Fin.val (hn k hk)).symm⟩

/-- **A loop that does not return, and whose bounded measure falls no more, comes to stand still.** -/
theorem stalls_of_not_returns {m : σ → Nat} {b n : Nat} (hno : ¬ Returns pass h s)
    (hup : ∀ k t v, n ≤ k → after pass h s k = .again t → pass (h k) t = .again v → m t ≤ m v) (hb : ∀ u, m u ≤ b) :
    ∃ f : Nat → σ, ∃ n, (∀ j, after pass h s (n + j) = .again (f j)) ∧
      (∀ j, pass (h (n + j)) (f j) = .again (f (j + 1))) ∧ ∀ j, m (f (j + 1)) = m (f j) := by
  choose f hf using again_of_not_returns hno
  have hnext : ∀ k, pass (h k) (f k) = .again (f (k + 1)) := fun k => by rw [← after_succ (hf k), hf]
  obtain ⟨i, hi⟩ := exists_stall (m := fun k => m (f (n + k)))
    (fun k => hup (n + k) _ _ (Nat.le_add_right n k) (hf _) (hnext _)) fun k => hb _
  refine ⟨fun j => f (n + i + j), n + i, fun j => hf _, fun j => hnext _, fun j => ?_⟩
  have hlate := hi (i + (j + 1)) (by omega)
  have hsoon := hi (i + j) (by omega)
  rw [← Nat.add_assoc] at hlate hsoon
  exact hlate.trans hsoon.symm

end After

end Loops
