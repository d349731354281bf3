import PgLinux.Lib.Runs
import PgLinux.Worker
/-!
# QueueIndex — which queue a register access touches

`VirtioDev.queues` answers for every index, as C does before the memory around the array is looked at.  `queueIndex` is
the number an access indexes the array with, and the model touches no other entry.
-/
namespace PgLinux

/-- An access of the guest to a device register. -/
inductive RegAccess where
  | load (offset size : U64)
  | store (offset val : U64)

/-- The registers that hold a field of the selected queue. -/
def selectedRegs : List U64 := [0x038, 0x044, 0x080, 0x084, 0x090, 0x094, 0x0A0, 0x0A4]

/-- The access is to a field of the selected queue. -/
def RegAccess.selected : RegAccess → Prop
  | .load offset _ => offset = 0x044
  | .store offset _ => offset ∈ selectedRegs

instance : DecidablePred RegAccess.selected
  | .load offset _ => decEq offset 0x044
  | .store _ _ => decidable_of_iff _ List.contains_iff_mem

section Index

variable (dev : VirtioDev)

/-- `int qi = dev->queue_sel`, behind `qi < 4`. -/
def selectedIndex : Option Int := if dev.queue_sel.slt 4 then some dev.queue_sel.toInt else none

/-- The index with which an access reaches `dev->queues`: `qi`, or `val` behind `val < 4`. -/
def queueIndex (e : RegAccess) : Option Int :=
  if e.selected then selectedIndex dev
  else match e with
    | .store offset val => if offset = 0x050 ∧ val < 4 then some val.toNat else none
    | .load _ _ => none

theorem updQueue_queues (f : VirtioQueue → VirtioQueue) {j : U32}
    (hj : ∀ i, selectedIndex dev = some i → j ≠ .ofInt 32 i) : (updQueue dev f).queues j = dev.queues j := by
  unfold updQueue
  split
  next hlt =>
    have hne := hj dev.queue_sel.toInt (if_pos hlt)
    rw [BitVec.ofInt_toInt] at hne
    exact if_neg hne
  next => rfl

/-- **A load reads the indexed entry only.** -/
theorem virtioMmioLoad_queues (offset size : U64) (queues : U32 → VirtioQueue)
    (h : ∀ i, queueIndex dev (.load offset size) = some i → queues (.ofInt 32 i) = dev.queues (.ofInt 32 i)) :
    virtioMmioLoad { dev with queues := queues } offset size = virtioMmioLoad dev offset size := by
  unfold virtioMmioLoad
  by_cases ho : offset = 0x044
  · subst ho
    cases hlt : dev.queue_sel.slt 4 with
    | true =>
      have hq := h dev.queue_sel.toInt ((if_pos rfl).trans (if_pos hlt))
      rw [BitVec.ofInt_toInt] at hq
      simp only [hq]
      rfl
    | false => simp [virtioMmioConfig]
  · simp only [if_neg ho]
    rfl

/-- A write to a selected register is an update of the selected queue. -/
theorem virtioRegStore_selected {offset : U64} (h : offset ∈ selectedRegs) (val : U64) {P : VirtioDev → Prop}
    (hP : ∀ f, P (updQueue dev f)) : P (virtioRegStore dev offset val) := by
  simp only [selectedRegs, List.mem_cons, List.not_mem_nil, or_false] at h
  unfold virtioRegStore
  rcases h with rfl | rfl | rfl | rfl | rfl | rfl | rfl | rfl <;> simp [hP]

theorem virtioRegStore_unselected {offset val : U64} (h : offset ∉ selectedRegs) (hreset : offset ≠ 0x070 ∨ val ≠ 0) :
    (virtioRegStore dev offset val).queues = dev.queues := by
  simp only [selectedRegs, List.mem_cons, List.not_mem_nil, or_false, not_or] at h
  obtain ⟨h1, h2, h3, h4, h5, h6, h7, h8⟩ := h
  unfold virtioRegStore
  simp only [if_neg h1, if_neg h2, if_neg h3, if_neg h4, if_neg h5, if_neg h6, if_neg h7, if_neg h8]
  split
  next => rfl
  split
  next => split <;> [rfl; split <;> rfl]
  split
  next => rfl
  split
  next => rfl
  split
  next => rfl
  split
  next ho =>
    rw [if_neg (hreset.resolve_left (not_not_intro ho))]
  next => rfl

/-- **A store writes the indexed entry only**, the reset apart. -/
theorem virtioRegStore_queues (offset val : U64) {j : U32} (hreset : offset ≠ 0x070 ∨ val ≠ 0)
    (hj : ∀ i, queueIndex dev (.store offset val) = some i → j ≠ .ofInt 32 i) :
    (virtioRegStore dev offset val).queues j = dev.queues j := by
  by_cases ho : offset ∈ selectedRegs
  · refine virtioRegStore_selected dev ho val (P := fun d => d.queues j = dev.queues j) fun f => ?_
    exact updQueue_queues dev f fun i hi => hj i ((if_pos ho).trans hi)
  · rw [virtioRegStore_unselected dev ho hreset]

/-- **A notify that indexes nothing does nothing.** -/
theorem virtioNotify_unindexed [NetDevice] (ramSize val : U64) (mem : BlkMem)
    (h : queueIndex dev (.store 0x050 val) = none) : virtioNotify dev ramSize val mem = (mem, dev) := by
  have hval : ¬ val < 4 := by
    intro hlt
    have hsel : ¬ (RegAccess.store 0x050 val).selected := by simp [RegAccess.selected, selectedRegs]
    unfold queueIndex at h
    rw [if_neg hsel] at h
    simp at h
    exact absurd hlt (BitVec.not_lt.2 h)
  unfold virtioNotify
  rw [if_neg fun hc => hval hc.1]

end Index

/-! ## Sequences of accesses -/

section Accesses

/-- The access indexes the array outside its four entries. -/
def IndexOut (s : BlkMem × VirtioDev) (e : RegAccess) : Prop := ∃ i, queueIndex s.2 e = some i ∧ ¬ (0 ≤ i ∧ i < 4)

/-- The access is to a field of the selected queue, and QUEUE_SEL is negative as an `int`. -/
def NegativeSelect (s : BlkMem × VirtioDev) (e : RegAccess) : Prop := e.selected ∧ 2 ^ 31 ≤ s.2.queue_sel.toNat

instance (s : BlkMem × VirtioDev) (e : RegAccess) : Decidable (IndexOut s e) :=
  match h : queueIndex s.2 e with
  | none => .isFalse fun ⟨_, hi, _⟩ => by rw [h] at hi; cases hi
  | some i => decidable_of_iff (¬ (0 ≤ i ∧ i < 4))
    ⟨fun hi => ⟨i, h, hi⟩, fun ⟨_, hj, hout⟩ => by rw [h] at hj; cases hj; exact hout⟩

theorem selectedIndex_out (dev : VirtioDev) :
    (∃ i, selectedIndex dev = some i ∧ ¬ (0 ≤ i ∧ i < 4)) ↔ 2 ^ 31 ≤ dev.queue_sel.toNat := by
  have hlt := dev.queue_sel.isLt
  have hslt : dev.queue_sel.slt 4 = true ↔ dev.queue_sel.toInt < 4 := by
    rw [BitVec.slt_iff_toInt_lt]
    rfl
  have hint := BitVec.toInt_eq_toNat_cond dev.queue_sel
  unfold selectedIndex
  constructor
  · rintro ⟨i, hi, hout⟩
    split at hi
    next h =>
      obtain rfl := Option.some.inj hi
      have := hslt.1 h
      split at hint <;> omega
    next => cases hi
  · intro hneg
    rw [if_neg (by omega)] at hint
    refine ⟨_, if_pos (hslt.2 (by omega)), by omega⟩

theorem indexOut_iff (s : BlkMem × VirtioDev) (e : RegAccess) : IndexOut s e ↔ NegativeSelect s e := by
  unfold IndexOut NegativeSelect queueIndex
  by_cases hsel : e.selected
  · rw [if_pos hsel, selectedIndex_out]
    exact ⟨fun h => ⟨hsel, h⟩, And.right⟩
  · rw [if_neg hsel]
    refine ⟨?_, fun h => absurd h.1 hsel⟩
    rintro ⟨i, hi, hout⟩
    cases e with
    | load offset size => cases hi
    | store offset val =>
      dsimp only at hi
      split at hi
      next h =>
        have hval : val.toNat < 4 := h.2
        obtain rfl := Option.some.inj hi
        omega
      next => cases hi

variable [NetDevice] (ramSize : U64)

def RegAccess.run (s : BlkMem × VirtioDev) : RegAccess → BlkMem × VirtioDev
  | .load _ _ => s
  | .store offset val => virtioMmioStore s.2 ramSize offset val s.1

/-- **Every index is one of the four exactly when the guest leaves the selected queue alone while QUEUE_SEL is 2^31 or
more.** -/
theorem indexSafe_iff (s : BlkMem × VirtioDev) (evs : List RegAccess) :
    Runs.Avoids (RegAccess.run ramSize) IndexOut s evs ↔ Runs.Avoids (RegAccess.run ramSize) NegativeSelect s evs := by
  constructor <;> intro h pre e hpre hbad
  · exact h pre e hpre ((indexOut_iff _ e).2 hbad)
  · exact h pre e hpre ((indexOut_iff _ e).1 hbad)

end Accesses

section Instances

local instance indexNet : NetDevice := NetDevice.silent

/-- QUEUE_SEL = 0x80000000 on a fresh disk, and the QUEUE_READY register read. -/
theorem not_indexSafe_negative : ¬ Runs.Avoids (RegAccess.run vmRamSize) IndexOut (.null, virtioBlkInit 1 0)
    [.store 0x030 0x80000000, .load 0x044 4] := by
  intro h
  exact h [.store 0x030 0x80000000] (.load 0x044 4) List.prefix_rfl (by decide)

end Instances

end PgLinux
