import PgLinux.Interrupts
/-!
# PlicClaim — which source a claim answers (`plic_load`)

The rule is the one the comment of the claim loop names: the pending and enabled source of the highest priority, if that
is above the threshold.  The loop answers the first pending and enabled source and compares no priorities.
-/
namespace PgLinux

def Plic.isEnabled (p : Plic) (ctx : Bool) (irq : U32) : Bool := (p.enable ctx (irq / 32)).getLsbD (irq % 32).toNat

section Rule

variable (p : Plic) (ctx : Bool)

/-- One of the sources 1 to 63, pending and enabled. -/
structure Plic.Waits (i : U32) : Prop where
  pos : 0 < i.toNat
  lt : i.toNat < 64
  pending : p.isPending i = true
  enabled : p.isEnabled ctx i = true

/-- A waiting source of a priority above the threshold; priority zero never is. -/
structure Plic.Candidate (i : U32) : Prop extends p.Waits ctx i where
  above : (p.threshold ctx).toNat < (p.priority i).toNat

/-- The source to claim: none is of a higher priority, and the others of its priority have higher ids. -/
structure Plic.Best (i : U32) : Prop extends p.Candidate ctx i where
  first : ∀ j, p.Candidate ctx j → (p.priority j).toNat < (p.priority i).toNat ∨ p.priority j = p.priority i ∧ i.toNat ≤ j.toNat

/-- What a claim of source `i` leaves: that pending bit down, and nothing else but the record of the claim. -/
structure Plic.Claimed (i : U32) (p' : Plic) : Prop where
  pending : ∀ j, p'.isPending j = (p.isPending j && j != i)
  priority : p'.priority = p.priority
  enable : p'.enable = p.enable
  threshold : p'.threshold = p.threshold

/-- The register that claims, in the window of a context. -/
def claimOffset : U64 := if ctx then 0x201004 else 0x200004

/-- A claim answers the source to claim and takes its bit down, or answers zero and changes nothing. -/
def ClaimsBest : Prop :=
  (∃ i, p.Best ctx i ∧ (plicLoad p (claimOffset ctx)).1 = i.setWidth 64 ∧ p.Claimed i (plicLoad p (claimOffset ctx)).2) ∨
    (∀ i, ¬ p.Candidate ctx i) ∧ plicLoad p (claimOffset ctx) = (0, p)

/-- The waiting source of the lowest id is above the threshold, and no waiting source is of a higher priority. -/
def LowestIsHighest : Prop := ∀ i, p.Waits ctx i → (∀ j, p.Waits ctx j → i.toNat ≤ j.toNat) →
  (p.threshold ctx).toNat < (p.priority i).toNat ∧ ∀ j, p.Waits ctx j → (p.priority j).toNat ≤ (p.priority i).toNat

end Rule

/-! ## The loop -/

theorem plicLoad_claim (p : Plic) (ctx : Bool) : plicLoad p (claimOffset ctx) = plicClaim p ctx 63 1 := by
  cases ctx <;> rfl

theorem and_bit_ne_zero (v n : U32) (hn : n.toNat < 32) : v &&& (1 : U32) <<< n ≠ 0 ↔ v.getLsbD n.toNat = true := by
  constructor
  · intro h
    by_contra hbit
    refine h (BitVec.eq_of_getLsbD_eq fun j hj => ?_)
    rw [BitVec.getLsbD_and, bit_getLsbD n hj, show (0 : U32).getLsbD j = false from BitVec.getLsbD_zero]
    by_cases hjn : j = n.toNat
    · rw [hjn, Bool.eq_false_iff.2 hbit, Bool.false_and]
    · rw [decide_eq_false hjn, Bool.and_false]
  · intro h h0
    have hbit : (v &&& (1 : U32) <<< n).getLsbD n.toNat = true := by
      rw [BitVec.getLsbD_and, bit_getLsbD n hn, h, decide_eq_true rfl, Bool.and_self]
    rw [h0] at hbit
    cases hbit.symm.trans BitVec.getLsbD_zero

/-- The test of the loop body. -/
theorem claim_test (p : Plic) (ctx : Bool) (i : U32) :
    p.pending (i / 32) &&& p.enable ctx (i / 32) &&& (1 : U32) <<< (i % 32) ≠ 0 ↔
      p.isPending i = true ∧ p.isEnabled ctx i = true := by
  rw [and_bit_ne_zero _ _ (slot_lt i), BitVec.getLsbD_and, Bool.and_eq_true]
  rfl

/-- Taking the bit of `i` down. -/
theorem claimed_of_clear (p : Plic) (i : U32) (claim : Bool → U32) : p.Claimed i
    { p with
      pending := setAt p.pending (i / 32) (p.pending (i / 32) &&& ~~~((1 : U32) <<< (i % 32))), claim := claim } where
  pending j := by
    unfold Plic.isPending setAt
    dsimp only
    split
    next heq =>
      rw [heq, BitVec.getLsbD_and, BitVec.getLsbD_not, bit_getLsbD _ (slot_lt j), decide_eq_true (slot_lt j),
        Bool.true_and]
      congr 1
      rw [Bool.eq_iff_iff]
      simp only [Bool.not_eq_true', decide_eq_false_iff_not, bne_iff_ne, ne_eq]
      exact not_congr ⟨fun hm => eq_of_slot heq hm, fun h => by rw [h]⟩
    next hne =>
      have hji : j ≠ i := fun h => hne (by rw [h])
      rw [bne_iff_ne.2 hji, Bool.and_true]
  priority := rfl
  enable := rfl
  threshold := rfl

/-- **The loop answers the first waiting source**, or zero when none waits. -/
theorem plicClaim_first (p : Plic) (ctx : Bool) : ∀ (n : Nat) (i : U32), 0 < i.toNat → i.toNat + n = 64 →
    (∀ j, p.Waits ctx j → i.toNat ≤ j.toNat) →
    (∃ k, p.Waits ctx k ∧ (∀ j, p.Waits ctx j → k.toNat ≤ j.toNat) ∧ (plicClaim p ctx n i).1 = k.setWidth 64 ∧
      p.Claimed k (plicClaim p ctx n i).2) ∨
    (∀ j, ¬ p.Waits ctx j) ∧ plicClaim p ctx n i = (0, p)
  | 0, i, _, hn, hlow => .inr ⟨fun j hj => by
      have := hlow j hj
      have := hj.lt
      omega, rfl⟩
  | n + 1, i, hpos, hn, hlow => by
    unfold plicClaim
    dsimp only
    by_cases htest : p.pending (i / 32) &&& p.enable ctx (i / 32) &&& (1 : U32) <<< (i % 32) ≠ 0
    · rw [if_pos htest]
      obtain ⟨hpend, hen⟩ := (claim_test p ctx i).1 htest
      exact .inl ⟨i, ⟨hpos, by omega, hpend, hen⟩, hlow, rfl, claimed_of_clear p i _⟩
    · rw [if_neg htest]
      have hone : (i + 1).toNat = i.toNat + 1 := by
        rw [BitVec.toNat_add, show (1 : U32).toNat = 1 from rfl]
        omega
      refine plicClaim_first p ctx n (i + 1) (by omega) (by omega) fun j hj => ?_
      have hne : i ≠ j := by
        rintro rfl
        exact htest ((claim_test p ctx i).2 ⟨hj.pending, hj.enabled⟩)
      have := hlow j hj
      have := mt BitVec.eq_of_toNat_eq hne
      omega

/-! ## The answer -/

theorem Plic.Best.unique {p : Plic} {ctx : Bool} {i j : U32} (hi : p.Best ctx i) (hj : p.Best ctx j) : i = j := by
  apply BitVec.eq_of_toNat_eq
  rcases hi.first j hj.toCandidate with h | ⟨h, hle⟩ <;> rcases hj.first i hi.toCandidate with h' | ⟨h', hle'⟩
  · omega
  · rw [h'] at h
    omega
  · rw [h] at h'
    omega
  · omega

/-- **A claim answers the best source exactly when the waiting source of the lowest id is the best one.** -/
theorem claimsBest_iff (p : Plic) (ctx : Bool) : ClaimsBest p ctx ↔ LowestIsHighest p ctx := by
  unfold ClaimsBest
  rw [plicLoad_claim]
  rcases plicClaim_first p ctx 63 1 (by decide) (by decide) fun j hj => hj.pos with
    ⟨k, hk, hlow, hval, hclaimed⟩ | ⟨hnone, hsame⟩
  · have hval0 : k.setWidth 64 ≠ 0 := by
      have := hk.pos
      intro h0
      have := congrArg BitVec.toNat h0
      rw [BitVec.toNat_setWidth] at this
      simp at this
      omega
    have hinj : ∀ i : U32, k.setWidth 64 = i.setWidth 64 → k = i := by
      intro i h
      bv_omega
    constructor
    · rintro (⟨i, hbest, hi, -⟩ | ⟨-, h0⟩)
      · obtain rfl := hinj i (hval.symm.trans hi)
        intro i hi hfirst
        obtain rfl : i = k := by
          have := hfirst k hk
          have := hlow i hi
          exact BitVec.eq_of_toNat_eq (by omega)
        refine ⟨hbest.above, fun j hj => ?_⟩
        by_cases habove : (p.threshold ctx).toNat < (p.priority j).toNat
        · rcases hbest.first j ⟨hj, habove⟩ with h | ⟨h, -⟩
          · omega
          · exact Nat.le_of_eq (congrArg BitVec.toNat h)
        · have := hbest.above
          omega
      · rw [h0] at hval
        exact absurd hval.symm hval0
    · intro h
      obtain ⟨habove, hmax⟩ := h k hk hlow
      refine .inl ⟨k, ⟨⟨hk, habove⟩, fun j hj => ?_⟩, hval, hclaimed⟩
      have hle := hmax j hj.toWaits
      have hid := hlow j hj.toWaits
      rcases Nat.lt_or_ge (p.priority j).toNat (p.priority k).toNat with hlt | hge
      · exact .inl hlt
      · exact .inr ⟨BitVec.eq_of_toNat_eq (Nat.le_antisymm hle hge), hid⟩
  · constructor
    · intro _ i hi
      exact absurd hi (hnone i)
    · intro _
      exact .inr ⟨fun i hi => hnone i hi.toWaits, hsame⟩

/-- Sources 1 and 2 pending and enabled, the second of a higher priority. -/
def twoSources : Plic := ⟨fun i => i, fun _ => 6, fun _ _ => 6, fun _ => 0, fun _ => 0⟩

/-- The claim answers source 1. -/
theorem not_claimsBest_two : ¬ ClaimsBest twoSources true := by
  have hload : (plicLoad twoSources (claimOffset true)).1 = 1 := by decide
  have htwo : twoSources.Candidate true 2 := ⟨⟨by decide, by decide, by decide, by decide⟩, by decide⟩
  rintro (⟨i, hbest, hi, -⟩ | ⟨hnone, -⟩)
  · rw [hload] at hi
    obtain rfl : i = 1 := by bv_omega
    rcases hbest.first 2 htwo with h | ⟨h, -⟩ <;> revert h <;> decide
  · exact hnone 2 htwo

end PgLinux
