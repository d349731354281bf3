import Mathlib.Logic.Function.Basic
import Mathlib.Tactic.Common
/-!
# CallLog — a log of calls that their returns are to fill in

Calls are numbered as they are made, and those that have not returned are a stack.  Some calls are logged, entry `k` of
the log in cell `slot k`, and a return that has something to tell fills in the entry that was made last, whose call need
not be the one that returns.
-/
namespace CallLog

inductive Event (K V : Type) where
  /-- A call, and what is logged of it. -/
  | call (what : Option K)
  /-- The return of the innermost call, and what it fills in. -/
  | ret (value : Option V)
deriving DecidableEq

/-- A return that has something to fill in. -/
def Event.fills {K V : Type} : Event K V → Bool
  | .ret (some _) => true
  | _ => false

/-- What a return filled in, and the call it returned from. -/
structure Fill (V : Type) where
  call : Option Nat
  value : V
deriving DecidableEq

structure Entry (K V : Type) where
  call : Nat
  what : K
  fill : Option (Fill V)
deriving DecidableEq

/-- The number of calls, those that have not returned and those logged, latest first, and the cells of the log. -/
structure Ledger (S K V : Type) where
  calls : Nat
  pending : List Nat
  log : List Nat
  cell : S → Option (Entry K V)

variable {S K V : Type}

def Ledger.empty : Ledger S K V := ⟨0, [], [], fun _ => none⟩

def Entry.filled (f : Fill V) (e : Entry K V) : Entry K V := { e with fill := some f }

section Take

variable [DecidableEq S] (slot : Nat → S) (live : Nat → Bool)

/-- A return fills in only while `live` holds of the length of the log. -/
def Ledger.take (l : Ledger S K V) : Event K V → Ledger S K V
  | .call none => { l with calls := l.calls + 1, pending := l.calls :: l.pending }
  | .call (some what) =>
    { calls := l.calls + 1
      pending := l.calls :: l.pending
      log := l.calls :: l.log
      cell := Function.update l.cell (slot l.log.length) (some ⟨l.calls, what, none⟩) }
  | .ret none => { l with pending := l.pending.tail }
  | .ret (some v) =>
    let last := slot (l.log.length - 1)
    { l with
      pending := l.pending.tail
      cell := if live l.log.length then Function.update l.cell last ((l.cell last).map (.filled ⟨l.pending.head?, v⟩))
        else l.cell }

end Take

/-- **What was filled in was filled in by the return of the entry's own call.** -/
def Ledger.Paired (l : Ledger S K V) : Prop := ∀ i e f, l.cell i = some e → e.fill = some f → f.call = some e.call

/-- A return that fills in is that of the call logged last. -/
def Ledger.Answers (live : Nat → Bool) (l : Ledger S K V) (e : Event K V) : Prop :=
  e.fills → live l.log.length → l.pending.head? = l.log.head?

/-- The cell of the last entry is that of the call logged last. -/
def Ledger.Tracks (slot : Nat → S) (l : Ledger S K V) : Prop :=
  ∀ n rest, l.log = n :: rest → ∃ e, l.cell (slot rest.length) = some e ∧ e.call = n

variable {slot : Nat → S} {live : Nat → Bool}

theorem paired_empty : (Ledger.empty : Ledger S K V).Paired := fun _ _ _ h => nomatch h

theorem tracks_empty : (Ledger.empty : Ledger S K V).Tracks slot := fun _ _ h => nomatch h

/-! ## One event -/

variable [DecidableEq S] {l : Ledger S K V}

theorem Ledger.Tracks.take (h : l.Tracks slot) (e : Event K V) : (l.take slot live e).Tracks slot := by
  intro n rest hlog
  match e with
  | .call none => exact h n rest hlog
  | .ret none => exact h n rest hlog
  | .call (some what) =>
    cases hlog
    exact ⟨⟨l.calls, what, none⟩, Function.update_self _ _ _, rfl⟩
  | .ret (some v) =>
    obtain ⟨d, hd, hn⟩ := h n rest hlog
    have hlen : l.log.length = rest.length + 1 := congrArg List.length hlog
    unfold Ledger.take
    dsimp only
    rw [hlen, Nat.add_sub_cancel]
    split
    · exact ⟨d.filled _, by rw [Function.update_self, hd]; rfl, hn⟩
    · exact ⟨d, hd, hn⟩

theorem Ledger.Paired.call (h : l.Paired) (what : Option K) : (l.take slot live (.call what)).Paired := by
  intro i e f hcell hfill
  cases what with
  | none => exact h i e f hcell hfill
  | some what =>
    by_cases hi : i = slot l.log.length
    · subst hi
      cases (Function.update_self (f := l.cell) _ _).symm.trans hcell
      cases hfill
    · exact h i e f ((Function.update_of_ne hi _ _).symm.trans hcell) hfill

/-- **A return that fills in** writes the entry of the call logged last. -/
theorem Ledger.Tracks.fills (h : l.Tracks slot) (hzero : live 0 = false) (hlive : live l.log.length = true) :
    ∃ e rest, l.log = e.call :: rest ∧ l.cell (slot rest.length) = some e ∧ ∀ v, (l.take slot live (.ret (some v))).cell =
      Function.update l.cell (slot rest.length) (some (e.filled ⟨l.pending.head?, v⟩)) := by
  cases hlog : l.log with
  | nil =>
    rw [hlog] at hlive
    exact absurd (hzero.symm.trans hlive) (by decide)
  | cons n rest =>
    obtain ⟨e, he, rfl⟩ := h n rest hlog
    refine ⟨e, rest, rfl, he, fun v => ?_⟩
    unfold Ledger.take
    dsimp only
    rw [if_pos hlive, hlog, List.length_cons, Nat.add_sub_cancel, he]
    rfl

/-- **A return keeps the log paired exactly when it answers the last call logged.** -/
theorem Ledger.Paired.ret_iff (h : l.Paired) (htracks : l.Tracks slot) (hzero : live 0 = false) (value : Option V) :
    (l.take slot live (.ret value)).Paired ↔ l.Answers live (.ret value) := by
  cases value with
  | none => exact iff_of_true h fun hfills => nomatch hfills
  | some v =>
    by_cases hlive : live l.log.length = true
    · obtain ⟨d, rest, hlog, -, hcell⟩ := htracks.fills hzero hlive
      constructor
      · intro hpaired _ _
        have hown := hpaired (slot rest.length) (d.filled ⟨l.pending.head?, v⟩) ⟨l.pending.head?, v⟩
          (by rw [hcell, Function.update_self]) rfl
        rw [hlog]
        exact hown
      · intro hanswers i e f hi hfill
        rw [hcell] at hi
        by_cases heq : i = slot rest.length
        · rw [heq, Function.update_self] at hi
          cases hi
          cases hfill
          have hlast := hanswers rfl hlive
          rw [hlog] at hlast
          exact hlast
        · rw [Function.update_of_ne heq] at hi
          exact h i e f hi hfill
    · have hcell : (l.take slot live (.ret (some v))).cell = l.cell := if_neg hlive
      refine iff_of_true (fun i e f hi => ?_) fun _ hl => absurd hl hlive
      rw [hcell] at hi
      exact h i e f hi

/-! ## Rounds -/

/-- Events that go together: calls, or one return. -/
def Round (es : List (Event K V)) : Prop := (∀ e ∈ es, ∃ what, e = .call what) ∨ ∃ value, es = [.ret value]

theorem Ledger.Tracks.takes (h : l.Tracks slot) (es : List (Event K V)) : (es.foldl (.take slot live) l).Tracks slot := by
  induction es generalizing l with
  | nil => exact h
  | cons e es ih => exact ih (h.take e)

theorem Ledger.Paired.calls (h : l.Paired) {es : List (Event K V)} (hcalls : ∀ e ∈ es, ∃ what, e = .call what) :
    (es.foldl (.take slot live) l).Paired := by
  induction es generalizing l with
  | nil => exact h
  | cons e es ih =>
    obtain ⟨what, rfl⟩ := hcalls e List.mem_cons_self
    exact ih (h.call what) fun d hd => hcalls d (List.mem_cons_of_mem _ hd)

theorem Ledger.Paired.round_iff (h : l.Paired) (htracks : l.Tracks slot) (hzero : live 0 = false) {es : List (Event K V)}
    (hround : Round es) : (es.foldl (.take slot live) l).Paired ↔ ∀ e ∈ es, l.Answers live e := by
  obtain hcalls | ⟨value, rfl⟩ := hround
  · refine iff_of_true (h.calls hcalls) fun e he hfills => ?_
    obtain ⟨what, rfl⟩ := hcalls e he
    cases hfills
  · rw [List.foldl_cons, List.foldl_nil, h.ret_iff htracks hzero, List.forall_mem_singleton]

/-- **A log stays paired through a run exactly when every return that fills in is that of the call logged last.** -/
theorem paired_iff (ledger : Nat → Ledger S K V) {rounds : Nat → List (Event K V)} (hempty : ledger 0 = .empty)
    (hnext : ∀ n, ledger (n + 1) = (rounds n).foldl (.take slot live) (ledger n)) (hround : ∀ n, Round (rounds n))
    (hzero : live 0 = false) : (∀ n, (ledger n).Paired) ↔ ∀ n, ∀ e ∈ rounds n, (ledger n).Answers live e := by
  have htracks (n : Nat) : (ledger n).Tracks slot := by
    induction n with
    | zero =>
      rw [hempty]
      exact tracks_empty
    | succ n ih =>
      rw [hnext]
      exact ih.takes _
  have hstep (n : Nat) (h : (ledger n).Paired) : (ledger (n + 1)).Paired ↔ ∀ e ∈ rounds n, (ledger n).Answers live e := by
    rw [hnext]
    exact h.round_iff (htracks n) hzero (hround n)
  constructor
  · intro h n
    exact (hstep n (h n)).1 (h (n + 1))
  · intro h n
    induction n with
    | zero =>
      rw [hempty]
      exact paired_empty
    | succ n ih => exact (hstep n ih).2 (h n)

end CallLog
