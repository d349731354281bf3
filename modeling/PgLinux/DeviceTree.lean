import PgLinux.Lib.Fdt
import PgLinux.Lib.Orbit
import PgLinux.Worker
/-!
# DeviceTree — the patch of `linux,initrd-end` on a flattened device tree

The patch looks for the name in the strings block, and for a property of that name in the structure block.  It takes
the first place where the name stands, which may be the end of a longer name or one of several copies, and reads words
from the structure block on to the end of the blob.
-/
namespace PgLinux

open Search Orbit Fdt

/-! ## The two searches as orbits -/

section Searches

variable (ram : Mem)

/-- The search of the strings block goes no further: it is past the last place, or the name stands here. -/
def StringStop (offStrings sizeStrings i : U32) : Prop :=
  ¬ i + 17 ≤ sizeStrings ∨ matchesAt ram (dtbAddr - ramBase + offStrings.setWidth 64 + i.setWidth 64) dtbTarget = true

instance (offStrings sizeStrings : U32) : DecidablePred (StringStop ram offStrings sizeStrings) := fun _ =>
  inferInstanceAs (Decidable (_ ∨ _))

/-- Where the scan of the structure block goes from `p`. -/
def scanNext (p : U32) : U32 :=
  if dtbWord ram p = 3 then p + (12 + ((dtbWord ram (p + 4) + 3) &&& ~~~3)) else p + 4

/-- A record at `p` for the name at `strOff`, with a value of 8 bytes. -/
def ScanHit (strOff p : U32) : Prop := dtbWord ram p = 3 ∧ dtbWord ram (p + 8) = strOff ∧ dtbWord ram (p + 4) = 8

instance (strOff : U32) : DecidablePred (ScanHit ram strOff) := fun _ => inferInstanceAs (Decidable (_ ∧ _))

def ScanStop (totalsize strOff p : U32) : Prop := ¬ p + 12 ≤ totalsize ∨ ScanHit ram strOff p

instance (totalsize strOff : U32) : DecidablePred (ScanStop ram totalsize strOff) := fun _ =>
  inferInstanceAs (Decidable (_ ∨ _))

/-- The scan from `p` ends at a record for the name, at `q`. -/
structure ScansTo (totalsize strOff p q : U32) : Prop where
  stopsAt : StopsAt (scanNext ram) (ScanStop ram totalsize strOff) p q
  inTree : q + 12 ≤ totalsize

/-- The search from `i` finds the name at `s`. -/
structure FindsName (offStrings sizeStrings i s : U32) : Prop where
  stopsAt : StopsAt (· + 1) (StringStop ram offStrings sizeStrings) i s
  room : s + 17 ≤ sizeStrings

theorem findString_seek (offStrings sizeStrings : U32) : ∀ (n : Nat) (i : U32), findString ram offStrings sizeStrings n i =
    (seek (· + 1) (StringStop ram offStrings sizeStrings) n i).filter fun s => s + 17 ≤ sizeStrings
  | 0, _ => rfl
  | n + 1, i => by
    unfold findString seek
    by_cases hroom : i + 17 ≤ sizeStrings
    · rw [if_pos hroom]
      by_cases hm : matchesAt ram (dtbAddr - ramBase + offStrings.setWidth 64 + i.setWidth 64) dtbTarget = true
      · have hstop : StringStop ram offStrings sizeStrings i := .inr hm
        rw [if_pos hm, if_pos hstop]
        rw [Option.filter_some, if_pos (decide_eq_true hroom)]
      · have hgo : ¬ StringStop ram offStrings sizeStrings i := not_or.2 ⟨not_not.2 hroom, hm⟩
        rw [if_neg hm, if_neg hgo]
        exact findString_seek offStrings sizeStrings n (i + 1)
    · have hstop : StringStop ram offStrings sizeStrings i := .inl hroom
      rw [if_neg hroom, if_pos hstop]
      rw [Option.filter_some, if_neg (ne_true_of_eq_false (decide_eq_false hroom))]

theorem findProp_seek (totalsize strOff : U32) : ∀ (n : Nat) (p : U32), findProp ram totalsize strOff n p =
    (seek (scanNext ram) (ScanStop ram totalsize strOff) n p).filter fun q => q + 12 ≤ totalsize
  | 0, _ => rfl
  | n + 1, p => by
    have ih := findProp_seek totalsize strOff n (scanNext ram p)
    unfold findProp seek
    by_cases hroom : p + 12 ≤ totalsize
    · rw [if_pos hroom]
      by_cases hhit : ScanHit ram strOff p
      · have hstop : ScanStop ram totalsize strOff p := .inr hhit
        rw [if_pos hhit.1, if_pos hstop]
        dsimp only
        rw [if_pos hhit.2]
        rw [Option.filter_some, if_pos (decide_eq_true hroom)]
      · have hgo : ¬ ScanStop ram totalsize strOff p := not_or.2 ⟨not_not.2 hroom, hhit⟩
        rw [if_neg hgo, ← ih]
        unfold scanNext
        by_cases htok : dtbWord ram p = 3
        · rw [if_pos htok, if_pos htok]
          exact if_neg fun h => hhit ⟨htok, h⟩
        · rw [if_neg htok, if_neg htok]
    · have hstop : ScanStop ram totalsize strOff p := .inl hroom
      rw [if_neg hroom, if_pos hstop]
      rw [Option.filter_some, if_neg (ne_true_of_eq_false (decide_eq_false hroom))]

def wordCode (w : U32) : Fin (2 ^ 32) := w.toFin

theorem wordCode_injective : Function.Injective wordCode := fun _ _ h => BitVec.eq_of_toFin_eq h

/-- **The rounds of the search are as many as there are indices**: it finds what the loop of the source finds. -/
theorem findString_eq_some {offStrings sizeStrings i s : U32} :
    findString ram offStrings sizeStrings (2 ^ 32) i = some s ↔ FindsName ram offStrings sizeStrings i s := by
  rw [findString_seek, Option.filter_eq_some_iff, seek_eq_some wordCode wordCode_injective, decide_eq_true_iff]
  exact ⟨fun h => ⟨h.1, h.2⟩, fun h => ⟨h.stopsAt, h.room⟩⟩

theorem findProp_eq_some {totalsize strOff p q : U32} :
    findProp ram totalsize strOff (2 ^ 32) p = some q ↔ ScansTo ram totalsize strOff p q := by
  rw [findProp_seek, Option.filter_eq_some_iff, seek_eq_some wordCode wordCode_injective, decide_eq_true_iff]
  exact ⟨fun h => ⟨h.1, h.2⟩, fun h => ⟨h.stopsAt, h.inTree⟩⟩

/-- The patch is made at `q`. -/
def Patches (q : U32) : Prop :=
  dtbWord ram 0 = 0xd00dfeed ∧ ∃ s, FindsName ram (dtbWord ram 12) (dtbWord ram 32) 0 s ∧ s.msb = false ∧
    ScansTo ram (dtbWord ram 4) s (dtbWord ram 8) q

theorem Patches.unique {ram : Mem} {p q : U32} (hp : Patches ram p) (hq : Patches ram q) : p = q := by
  obtain ⟨-, s, hs, -, hscan⟩ := hp
  obtain ⟨-, s', hs', -, hscan'⟩ := hq
  obtain rfl := hs.stopsAt.unique hs'.stopsAt
  exact hscan.stopsAt.unique hscan'.stopsAt

theorem patchDtb_of_patches {q : U32} (h : Patches ram q) (initrdSize : U64) :
    patchDtb ram initrdSize = putDtbValue ram q (initrdAddr + initrdSize) := by
  obtain ⟨hmagic, s, hs, hmsb, hscan⟩ := h
  unfold patchDtb
  rw [if_pos hmagic, (findString_eq_some ram).2 hs]
  dsimp only
  rw [if_neg (ne_true_of_eq_false hmsb), (findProp_eq_some ram).2 hscan]

theorem patchDtb_of_not_patches (h : ∀ q, ¬ Patches ram q) (initrdSize : U64) : patchDtb ram initrdSize = ram := by
  unfold patchDtb
  split
  next hmagic =>
    cases hs : findString ram (dtbWord ram 12) (dtbWord ram 32) (2 ^ 32) 0 with
    | none => rfl
    | some s =>
      dsimp only
      split
      · rfl
      next hmsb =>
        cases hq : findProp ram (dtbWord ram 4) s (2 ^ 32) (dtbWord ram 8) with
        | none => rfl
        | some q =>
          exact absurd ⟨hmagic, s, (findString_eq_some ram).1 hs, eq_false_of_ne_true hmsb, (findProp_eq_some ram).1 hq⟩ (h q)
  · rfl

end Searches

/-! ## The blob in memory -/

section Memory

variable {ram : Mem}

/-- The device tree, by offset. -/
def treeBlob (ram : Mem) : Blob := fun i => ram (dtbAddr - ramBase + BitVec.ofNat 64 i)

theorem dtbByte_blob (ram : Mem) (p : U32) : dtbByte ram p = treeBlob ram p.toNat := by
  unfold dtbByte treeBlob
  rw [BitVec.ofNat_toNat]

theorem dtbWord_blob {o : Nat} (ho : o + 4 ≤ 2 ^ 32) : dtbWord ram (BitVec.ofNat 32 o) = (treeBlob ram).word o := by
  have hat : ∀ k, k < 4 → (BitVec.ofNat 32 o + BitVec.ofNat 32 k).toNat = o + k := by
    intro k hk
    rw [BitVec.toNat_add, BitVec.toNat_ofNat, BitVec.toNat_ofNat]
    omega
  have h0 : (BitVec.ofNat 32 o).toNat = o := by
    rw [BitVec.toNat_ofNat]
    omega
  unfold dtbWord Blob.word
  rw [dtbByte_blob, dtbByte_blob, dtbByte_blob, dtbByte_blob, h0,
    show (BitVec.ofNat 32 o + 1).toNat = o + 1 from hat 1 (by decide),
    show (BitVec.ofNat 32 o + 2).toNat = o + 2 from hat 2 (by decide),
    show (BitVec.ofNat 32 o + 3).toNat = o + 3 from hat 3 (by decide)]

theorem matchesAt_iff (ram : Mem) : ∀ (l : List U8) (a : U64), matchesAt ram a l = true ↔
    ∀ j b, l[j]? = some b → ram (a + BitVec.ofNat 64 j) = b
  | [], _ => iff_of_true rfl (fun _ _ h => nomatch h)
  | x :: l, a => by
    unfold matchesAt
    rw [Bool.and_eq_true, beq_iff_eq, matchesAt_iff ram l]
    have hstep : ∀ j : Nat, a + 1 + BitVec.ofNat 64 j = a + BitVec.ofNat 64 (j + 1) := by
      intro j
      rw [Nat.add_comm j 1, BitVec.ofNat_add, ← BitVec.add_assoc]
      rfl
    constructor
    · rintro ⟨h0, ht⟩ j b hb
      cases j with
      | zero =>
        obtain rfl : x = b := Option.some.inj hb
        exact (congrArg ram (BitVec.add_zero a)).trans h0
      | succ j => exact hstep j ▸ ht j b hb
    · intro h
      exact ⟨(congrArg ram (BitVec.add_zero a)).symm.trans (h 0 x rfl), fun j b hb => (hstep j).symm ▸ h (j + 1) b hb⟩

theorem matchesAt_blob {off i : U32} (l : List U8) :
    matchesAt ram (dtbAddr - ramBase + off.setWidth 64 + i.setWidth 64) l = true ↔
      (treeBlob ram).Holds (off.toNat + i.toNat) l := by
  rw [matchesAt_iff]
  unfold Blob.Holds treeBlob
  simp only [BitVec.ofNat_add, BitVec.ofNat_toNat, BitVec.add_assoc]

/-- The strings block, by offset. -/
def stringCells (ram : Mem) (off : U32) (i : Nat) : Option U8 := some (treeBlob ram (off.toNat + i))

theorem iterate_succ_zero (k : Nat) : (fun i : U32 => i + 1)^[k] 0 = BitVec.ofNat 32 k := by
  induction k with
  | zero => rfl
  | succ k ih =>
    rw [Function.iterate_succ_apply', ih]
    exact (BitVec.ofNat_add k 1).symm

/-- A place of the strings block that the search looks at. -/
theorem stringStop_iff {off size : U32} {k : Nat} (hsize : size.toNat + 17 < 2 ^ 32) (hk : k ≤ size.toNat) :
    StringStop ram off size (BitVec.ofNat 32 k) ↔
      ¬ k + 17 ≤ size.toNat ∨ OccursAt (stringCells ram off) dtbTarget size.toNat k := by
  have hto : (BitVec.ofNat 32 k).toNat = k := by
    rw [BitVec.toNat_ofNat]
    omega
  have hroom : BitVec.ofNat 32 k + 17 ≤ size ↔ k + 17 ≤ size.toNat := by
    rw [BitVec.le_def, BitVec.toNat_add, hto]
    show (k + 17) % 2 ^ 32 ≤ _ ↔ _
    omega
  unfold StringStop
  rw [hroom, matchesAt_blob, hto]
  refine or_congr_right' fun hin => ?_
  have hlen : dtbTarget.length = 17 := by decide
  constructor
  · intro h
    refine ⟨by omega, fun j b hb => ?_⟩
    exact congrArg some ((congrArg _ (Nat.add_assoc _ _ _).symm).trans (h j b hb))
  · intro h j b hb
    rw [Nat.add_assoc]
    exact Option.some.inj (h.cells j b hb)

/-- **The search finds the first place where the name stands.** -/
theorem findsName_iff {off size s : U32} (hsize : size.toNat + 17 < 2 ^ 32) :
    FindsName ram off size 0 s ↔ FirstAt (stringCells ram off) dtbTarget size.toNat s.toNat := by
  have hlen : dtbTarget.length = 17 := by decide
  constructor
  · rintro ⟨⟨k, hk, hstop, hbefore⟩, hroom⟩
    simp only [iterate_succ_zero] at hk hbefore
    subst hk
    have hkle : k ≤ size.toNat := by
      refine Nat.le_of_not_lt fun hlt => ?_
      exact hbefore (size.toNat) hlt ((stringStop_iff hsize (Nat.le_refl _)).2 (.inl (by omega)))
    have hto : (BitVec.ofNat 32 k).toNat = k := by
      rw [BitVec.toNat_ofNat]
      omega
    have hroom' : k + 17 ≤ size.toNat := by
      have h := BitVec.le_def.1 hroom
      rw [BitVec.toNat_add, hto] at h
      have h17 : (17 : U32).toNat = 17 := rfl
      omega
    rw [hto]
    refine ⟨((stringStop_iff hsize hkle).1 hstop).resolve_left (not_not.2 hroom'), fun j hj hocc => ?_⟩
    exact hbefore j hj ((stringStop_iff hsize (by omega)).2 (.inr hocc))
  · intro h
    have hroom := h.occurs.room
    have hs : BitVec.ofNat 32 s.toNat = s := BitVec.eq_of_toNat_eq (by rw [BitVec.toNat_ofNat]; omega)
    refine ⟨⟨s.toNat, by rw [iterate_succ_zero, hs], ?_, fun j hj => ?_⟩, ?_⟩
    · rw [← hs]
      exact (stringStop_iff hsize (by omega)).2 (.inr h.occurs)
    · rw [iterate_succ_zero, stringStop_iff hsize (by omega)]
      exact not_or.2 ⟨not_not.2 (by omega), h.least j hj⟩
    · rw [BitVec.le_def, BitVec.toNat_add]
      have h17 : (17 : U32).toNat = 17 := rfl
      omega

end Memory

/-! ## The scan along the tokens -/

section Scan

variable {ram : Mem} {total s p q : U32} {o len : Nat}

theorem ScansTo.skip (h : ScansTo ram total s p q) (hp : ¬ ScanHit ram s p) : ScansTo ram total s (scanNext ram p) q := by
  by_cases hstop : ScanStop ram total s p
  · obtain rfl := (stopsAt_self hstop).1 h.stopsAt
    rcases hstop with hout | hhit
    · exact absurd h.inTree hout
    · exact absurd hhit hp
  · exact ⟨(stopsAt_next hstop).1 h.stopsAt, h.inTree⟩

theorem ScansTo.back (hin : p + 12 ≤ total) (hp : ¬ ScanHit ram s p) (h : ScansTo ram total s (scanNext ram p) q) :
    ScansTo ram total s p q := by
  have hgo : ¬ ScanStop ram total s p := not_or.2 ⟨not_not.2 hin, hp⟩
  exact ⟨(stopsAt_next hgo).2 h.stopsAt, h.inTree⟩

theorem scansTo_hit (hin : p + 12 ≤ total) (hp : ScanHit ram s p) : ScansTo ram total s p p :=
  ⟨(stopsAt_self (.inr hp)).2 rfl, hin⟩

theorem ScansTo.hit (h : ScansTo ram total s p q) : ScanHit ram s q := h.stopsAt.stops.resolve_left (not_not.2 h.inTree)

/-- The scan goes from `o` over `len` bytes without a hit. -/
def Quiet (ram : Mem) (s : U32) (o len : Nat) : Prop :=
  ∃ k, (scanNext ram)^[k] (BitVec.ofNat 32 o) = BitVec.ofNat 32 (o + len) ∧ ∀ j, j < k → ∃ d, d + 4 ≤ len ∧
    (scanNext ram)^[j] (BitVec.ofNat 32 o) = BitVec.ofNat 32 (o + d) ∧ ¬ ScanHit ram s (BitVec.ofNat 32 (o + d))

theorem quiet_zero (ram : Mem) (s : U32) (o : Nat) : Quiet ram s o 0 :=
  ⟨0, rfl, fun j hj => (Nat.not_lt_zero j hj).elim⟩

/-- One round. -/
theorem quiet_one (hlen : 4 ≤ len) (hnext : scanNext ram (BitVec.ofNat 32 o) = BitVec.ofNat 32 (o + len))
    (hhit : ¬ ScanHit ram s (BitVec.ofNat 32 o)) : Quiet ram s o len := by
  refine ⟨1, hnext, fun j hj => ⟨0, hlen, ?_, hhit⟩⟩
  obtain rfl : j = 0 := by omega
  rfl

theorem Quiet.append {m : Nat} (h : Quiet ram s o len) (h' : Quiet ram s (o + len) m) : Quiet ram s o (len + m) := by
  obtain ⟨k, hk, hbefore⟩ := h
  obtain ⟨k', hk', hbefore'⟩ := h'
  refine ⟨k' + k, ?_, fun j hj => ?_⟩
  · rw [Function.iterate_add_apply, hk, hk', Nat.add_assoc]
  · rcases Nat.lt_or_ge j k with hlt | hge
    · obtain ⟨d, hd, hat, hhit⟩ := hbefore j hlt
      exact ⟨d, by omega, hat, hhit⟩
    · obtain ⟨d, hd, hat, hhit⟩ := hbefore' (j - k) (by omega)
      refine ⟨len + d, by omega, ?_, by rwa [← Nat.add_assoc]⟩
      rw [show j = j - k + k by omega, Function.iterate_add_apply, hk, hat, Nat.add_assoc]

/-- **A scan that finds the property finds it past what is quiet.** -/
theorem Quiet.past (h : Quiet ram s o len) (hscan : ScansTo ram total s (BitVec.ofNat 32 o) q) :
    ScansTo ram total s (BitVec.ofNat 32 (o + len)) q := by
  obtain ⟨k, hk, hbefore⟩ := h
  rw [← hk]
  have hall : ∀ j, j ≤ k → ScansTo ram total s ((scanNext ram)^[j] (BitVec.ofNat 32 o)) q := by
    intro j
    induction j with
    | zero => exact fun _ => hscan
    | succ j ih =>
      intro hj
      obtain ⟨d, -, hat, hhit⟩ := hbefore j hj
      rw [Function.iterate_succ_apply']
      exact (ih (by omega)).skip (hat ▸ hhit)
  exact hall k (Nat.le_refl k)

/-- **And what it finds past it is found**, where the scan does not end before. -/
theorem Quiet.back (h : Quiet ram s o len) (hroom : o + len + 8 ≤ total.toNat)
    (hscan : ScansTo ram total s (BitVec.ofNat 32 (o + len)) q) : ScansTo ram total s (BitVec.ofNat 32 o) q := by
  obtain ⟨k, hk, hbefore⟩ := h
  rw [← hk] at hscan
  have hall : ∀ j, j ≤ k → ScansTo ram total s ((scanNext ram)^[k - j] (BitVec.ofNat 32 o)) q := by
    intro j
    induction j with
    | zero => exact fun _ => hscan
    | succ j ih =>
      intro hj
      obtain ⟨d, hd, hat, hhit⟩ := hbefore (k - (j + 1)) (by omega)
      have hnext := ih (by omega)
      rw [show k - j = k - (j + 1) + 1 by omega, Function.iterate_succ_apply'] at hnext
      refine ScansTo.back ?_ (hat ▸ hhit) hnext
      rw [hat, BitVec.le_def, BitVec.toNat_add, BitVec.toNat_ofNat]
      have h12 : (12 : U32).toNat = 12 := rfl
      omega
  have := hall k (Nat.le_refl k)
  rwa [Nat.sub_self] at this

theorem quiet_word (ho : o + 4 ≤ 2 ^ 32) (hword : (treeBlob ram).word o ≠ 3) : Quiet ram s o 4 := by
  have hne : dtbWord ram (BitVec.ofNat 32 o) ≠ 3 := by rwa [dtbWord_blob ho]
  refine quiet_one (Nat.le_refl 4) ?_ fun hhit => hne hhit.1
  unfold scanNext
  rw [if_neg hne]
  exact (BitVec.ofNat_add o 4).symm

theorem quiet_words : ∀ (m : Nat) {o : Nat}, o + 4 * m ≤ 2 ^ 32 → (∀ k, k < m → (treeBlob ram).word (o + 4 * k) ≠ 3) →
    Quiet ram s o (4 * m)
  | 0, o, _, _ => quiet_zero ram s o
  | m + 1, o, ho, hwords => by
    have hfirst : Quiet ram s o 4 := quiet_word (by omega) (hwords 0 (Nat.succ_pos m))
    have hrest : Quiet ram s (o + 4) (4 * m) := quiet_words m (by omega) fun k hk => by
      have := hwords (k + 1) (by omega)
      rwa [show o + 4 * (k + 1) = o + 4 + 4 * k by omega] at this
    rw [show 4 * (m + 1) = 4 + 4 * m by omega]
    exact hfirst.append hrest

/-- Rounding up to words. -/
theorem round_up {n : Nat} (hn : n + 3 < 2 ^ 32) : (BitVec.ofNat 32 n + 3) &&& ~~~(3 : U32) =
    BitVec.ofNat 32 (n + (padding n).length) := by
  have hmask : ∀ x : U32, x &&& ~~~(3 : U32) = (x >>> 2) <<< 2 := by
    intro x
    refine BitVec.eq_of_getLsbD_eq fun i hi => ?_
    rw [BitVec.getLsbD_and, BitVec.getLsbD_not, BitVec.getLsbD_shiftLeft, BitVec.getLsbD_ushiftRight]
    rcases Nat.lt_or_ge i 2 with h | h
    · have hbit : (3 : U32).getLsbD i = true := by
        obtain rfl | rfl : i = 0 ∨ i = 1 := by omega
        · rfl
        · rfl
      rw [hbit]
      simp [h]
    · have hbit : (3 : U32).getLsbD i = false := by
        show Nat.testBit 3 i = false
        exact Nat.testBit_lt_two_pow (Nat.lt_of_lt_of_le (by decide) (Nat.pow_le_pow_right (by decide) h))
      rw [hbit, Nat.add_sub_cancel' h]
      simp [Nat.not_lt.2 h, hi]
  have hto : (BitVec.ofNat 32 n + 3).toNat = n + 3 := by
    rw [BitVec.toNat_add, BitVec.toNat_ofNat]
    show (n % 2 ^ 32 + 3) % 2 ^ 32 = _
    omega
  refine BitVec.eq_of_toNat_eq ?_
  unfold padding
  rw [hmask, BitVec.toNat_shiftLeft, BitVec.toNat_ushiftRight, hto, BitVec.toNat_ofNat, List.length_replicate,
    Nat.shiftRight_eq_div_pow, Nat.shiftLeft_eq]
  omega

/-- **A property is a hit** when it has that name and 8 bytes. -/
theorem scanHit_prop {n : U32} {v : List U8} (h : (treeBlob ram).Holds o (Token.prop n v).bytes)
    (hfit : o + (Token.prop n v).bytes.length ≤ 2 ^ 32) : ScanHit ram s (BitVec.ofNat 32 o) ↔ n = s ∧ v.length = 8 := by
  obtain ⟨htok, hlen, hname, -⟩ := Token.prop_words h
  rw [Token.bytes_length_prop] at hfit
  have h4 : dtbWord ram (BitVec.ofNat 32 o + 4) = BitVec.ofNat 32 v.length := by
    rw [← hlen, ← @dtbWord_blob ram (o + 4) (by omega), BitVec.ofNat_add]
    rfl
  have h8 : dtbWord ram (BitVec.ofNat 32 o + 8) = n := by
    rw [← hname, ← @dtbWord_blob ram (o + 8) (by omega), BitVec.ofNat_add]
    rfl
  unfold ScanHit
  rw [dtbWord_blob (by omega), htok, h4, h8, eq_self, true_and, ← BitVec.toNat_inj, ← BitVec.toNat_inj]
  rw [BitVec.toNat_inj, BitVec.toNat_ofNat, Nat.mod_eq_of_lt (by omega)]
  rfl

theorem scanNext_prop {n : U32} {v : List U8} (h : (treeBlob ram).Holds o (Token.prop n v).bytes)
    (hfit : o + (Token.prop n v).bytes.length ≤ 2 ^ 32) :
    scanNext ram (BitVec.ofNat 32 o) = BitVec.ofNat 32 (o + (Token.prop n v).bytes.length) := by
  obtain ⟨htok, hlen, -, -⟩ := Token.prop_words h
  rw [Token.bytes_length_prop] at hfit ⊢
  have h3 : dtbWord ram (BitVec.ofNat 32 o) = 3 := by
    rw [dtbWord_blob (by omega), htok]
  have h4 : dtbWord ram (BitVec.ofNat 32 o + 4) = BitVec.ofNat 32 v.length := by
    rw [← hlen, ← @dtbWord_blob ram (o + 4) (by omega), BitVec.ofNat_add]
    rfl
  unfold scanNext
  rw [if_pos h3, h4, round_up (by omega), BitVec.ofNat_add o, BitVec.ofNat_add 12]
  rfl

/-- A token that the search does not want. -/
def Unwanted (s : U32) (t : Token) : Prop := ∀ n v, t = .prop n v → ¬ (n = s ∧ v.length = 8)

/-- Its name has no NUL. -/
def PlainName (t : Token) : Prop := ∀ name, t = .beginNode name → (0 : U8) ∉ name

theorem quiet_token {t : Token} (h : (treeBlob ram).Holds o t.bytes) (hfit : o + t.bytes.length ≤ 2 ^ 32)
    (hunwanted : Unwanted s t) (hname : PlainName t) : Quiet ram s o t.bytes.length := by
  by_cases hprop : ∃ n v, t = .prop n v
  · obtain ⟨n, v, rfl⟩ := hprop
    refine quiet_one (Token.four_le_bytes _) (scanNext_prop h hfit) ?_
    rw [scanHit_prop h hfit]
    exact hunwanted n v rfl
  · have hlen : t.bytes.length = 4 * (t.bytes.length / 4) := by
      have := t.bytes_mod
      omega
    rw [hlen]
    refine quiet_words _ (by omega) fun k hk => Token.word_ne_prop ?_ hname h (by omega)
    exact fun n v ht => hprop ⟨n, v, ht⟩

/-- **The scan goes over the tokens that the search does not want.** -/
theorem quiet_tokens : ∀ (ts : List Token) {o : Nat}, (treeBlob ram).Holds o (tokenBytes ts) →
    o + (tokenBytes ts).length ≤ 2 ^ 32 → (∀ t ∈ ts, Unwanted s t ∧ PlainName t) → Quiet ram s o (tokenBytes ts).length
  | [], o, _, _, _ => quiet_zero ram s o
  | t :: ts, o, h, hfit, hall => by
    have hcons : tokenBytes (t :: ts) = t.bytes ++ tokenBytes ts := rfl
    rw [hcons] at h hfit ⊢
    rw [List.length_append] at hfit ⊢
    obtain ⟨hfirst, hrest⟩ := Blob.holds_append.1 h
    obtain ⟨hunwanted, hname⟩ := hall t List.mem_cons_self
    refine (quiet_token hfirst (by omega) hunwanted hname).append ?_
    exact quiet_tokens ts hrest (by omega) fun u hu => hall u (List.mem_cons_of_mem t hu)

end Scan

/-! ## What the patch should do -/

/-- `linux,initrd-end`, without its NUL. -/
def initrdEndName : List U8 := "linux,initrd-end".toList.map fun ch => BitVec.ofNat 8 ch.toNat

/-- The properties of that name in a tree: none, or one with a value of 8 bytes.  The place is that of its token among the
tokens, and `n` is where its name stands. -/
inductive InitrdEnd (t : Tree) : Option (Nat × U32) → Prop where
  | absent (h : ∀ n v, Token.prop n v ∈ t.tokens → ¬ t.Named n.toNat initrdEndName) : InitrdEnd t none
  | present {pre post : List Token} {n : U32} {v : List U8} (htokens : t.tokens = pre ++ Token.prop n v :: post)
      (hnamed : t.Named n.toNat initrdEndName) (hlen : v.length = 8)
      (hother : ∀ m w, Token.prop m w ∈ pre ++ post → ¬ t.Named m.toNat initrdEndName) :
      InitrdEnd t (some ((tokenBytes pre).length, n))

section Spec

variable (ram : Mem)

/-- `off_dt_struct` and `totalsize`. -/
def structsAt : Nat := ((treeBlob ram).word 8).toNat
def treeSize : Nat := ((treeBlob ram).word 4).toNat

/-- The blob with the value of the property replaced by `v`, big-endian. -/
def wantedBlob (place : Option (Nat × U32)) (v : U64) : Blob := fun j =>
  match place with
  | none => treeBlob ram j
  | some (d, _) =>
    let a := structsAt ram + d + 12
    if a ≤ j ∧ j < a + 8 then byteOf v (7 - (j - a)) else treeBlob ram j

/-- Whatever the size of the initrd, the patch makes the blob what it should be. -/
def PatchesExactly (place : Option (Nat × U32)) : Prop :=
  ∀ initrdSize j, j < treeSize ram →
    treeBlob (patchDtb ram initrdSize) j = wantedBlob ram place (initrdAddr + initrdSize) j

/-- A record for the name's first place that the scan meets, and that the patch would write to the blob for. -/
def StrayRecord (t : Tree) (q : U32) : Prop :=
  (∃ s : U32, FirstAt (listCells t.strings) dtbTarget t.strings.length s.toNat ∧ s.msb = false ∧
    ScansTo ram (dtbWord ram 4) s (dtbWord ram 8) q) ∧
  ∃ i, i < 8 ∧ (q + 12 + BitVec.ofNat 32 i).toNat < treeSize ram

/-- The name of the property is the first of its copies, at an offset that an `int` holds; a tree without the property
is followed by nothing that looks like one. -/
def NameIsFirst (t : Tree) : Option (Nat × U32) → Prop
  | none => ∀ q, ¬ StrayRecord ram t q
  | some (_, n) => FirstAt (listCells t.strings) dtbTarget t.strings.length n.toNat ∧ n.msb = false

end Spec

section Exact

variable {ram : Mem} {t : Tree}

theorem word_four (ram : Mem) : (dtbWord ram 4).toNat = treeSize ram := by
  rw [show (4 : U32) = BitVec.ofNat 32 4 from rfl, dtbWord_blob (by omega)]
  rfl

theorem word_eight (ram : Mem) : dtbWord ram 8 = BitVec.ofNat 32 (structsAt ram) := by
  rw [show (8 : U32) = BitVec.ofNat 32 8 from rfl, dtbWord_blob (by omega)]
  unfold structsAt
  rw [BitVec.ofNat_toNat, BitVec.setWidth_eq]

theorem treeSize_lt (ram : Mem) : treeSize ram < 2 ^ 32 := BitVec.isLt _

/-- **The search finds the first copy of the name.** -/
theorem findsName_tree (h : IsFdt (treeBlob ram) t) {s : U32} : FindsName ram (dtbWord ram 12) (dtbWord ram 32) 0 s ↔
    FirstAt (listCells t.strings) dtbTarget t.strings.length s.toNat := by
  have h12 : dtbWord ram 12 = (treeBlob ram).word 12 := dtbWord_blob (o := 12) (by omega)
  have h32 : dtbWord ram 32 = (treeBlob ram).word 32 := dtbWord_blob (o := 32) (by omega)
  have hsize := h.strings_size
  have hroom := h.strings_room
  have hheader := h.header.2
  have hlt : ((treeBlob ram).word 4).toNat < 2 ^ 32 := BitVec.isLt _
  have hcells : ∀ i, i < t.strings.length → stringCells ram (dtbWord ram 12) i = listCells t.strings i := by
    intro i hi
    unfold stringCells listCells
    rw [h12, List.getElem?_eq_getElem hi]
    exact congrArg some (h.strings i _ (List.getElem?_eq_getElem hi))
  rw [findsName_iff (by rw [h32]; omega), h32, hsize]
  exact ⟨fun hf => hf.congr fun i hi => (hcells i hi).symm, fun hf => hf.congr hcells⟩

theorem patches_iff (h : IsFdt (treeBlob ram) t) {q : U32} : Patches ram q ↔
    ∃ s : U32, FirstAt (listCells t.strings) dtbTarget t.strings.length s.toNat ∧ s.msb = false ∧
      ScansTo ram (dtbWord ram 4) s (dtbWord ram 8) q := by
  have hmagic : dtbWord ram 0 = 0xd00dfeed := (dtbWord_blob (o := 0) (by omega)).trans h.magic
  unfold Patches
  rw [eq_true hmagic, true_and]
  simp only [findsName_tree h]

/-- A byte of the blob after the patch. -/
theorem putDtbValue_blob (q : U32) (v : U64) {j : Nat} (hj : j < 2 ^ 32) : treeBlob (putDtbValue ram q v) j =
    if (BitVec.ofNat 32 j - (q + 12)).toNat < 8 then byteOf v (7 - (BitVec.ofNat 32 j - (q + 12)).toNat)
    else treeBlob ram j := by
  have hd : dtbAddr - ramBase + BitVec.ofNat 64 j - (dtbAddr - ramBase) = BitVec.ofNat 64 j := add_sub_self _ _
  have hto : (BitVec.ofNat 64 j).toNat = j := by
    rw [BitVec.toNat_ofNat]
    omega
  have hw : (BitVec.ofNat 64 j).setWidth 32 = BitVec.ofNat 32 j := by
    rw [← BitVec.ofNat_toNat, hto]
  unfold treeBlob putDtbValue
  dsimp only
  rw [hd, hto, hw]
  simp only [hj, true_and]

/-- Two values whose bytes differ, and the first byte of the second from all its others. -/
def allOnes : U64 := 0xFFFFFFFFFFFFFFFF
def topOnes : U64 := 0xFF00000000000000

theorem initrd_value (v : U64) : initrdAddr + (v - initrdAddr) = v := by
  rw [BitVec.add_comm]
  exact BitVec.sub_add_cancel v initrdAddr

theorem byteOf_zero (k : Nat) : byteOf 0 k = 0 := by
  refine BitVec.eq_of_getLsbD_eq fun j hj => ?_
  rw [byteOf_getLsbD]
  simp

theorem byteOf_allOnes : ∀ k, k < 8 → byteOf allOnes k = 0xFF := by decide

theorem byteOf_topOnes : ∀ k, k < 7 → byteOf topOnes k = 0 := by decide

/-! ### One property -/

section Present

variable {pre post : List Token} {n : U32} {v : List U8}

/-- Where the tokens before the property end. -/
theorem holds_present (h : IsFdt (treeBlob ram) t) (htokens : t.tokens = pre ++ Token.prop n v :: post) :
    (treeBlob ram).Holds (structsAt ram) (tokenBytes pre) ∧
      (treeBlob ram).Holds (structsAt ram + (tokenBytes pre).length) (Token.prop n v).bytes ∧
      structsAt ram + (tokenBytes pre).length + (Token.prop n v).bytes.length ≤ treeSize ram := by
  have hbytes : structBlock t.tokens = tokenBytes pre ++ ((Token.prop n v).bytes ++ (tokenBytes post ++ be32 9)) := by
    unfold structBlock
    rw [htokens]
    unfold tokenBytes
    rw [List.flatMap_append, List.flatMap_cons, List.append_assoc, List.append_assoc]
  have hstructs := h.structs
  have hroom := h.structs_room
  rw [hbytes] at hstructs hroom
  obtain ⟨hpre, hrest⟩ := Blob.holds_append.1 hstructs
  refine ⟨hpre, (Blob.holds_append.1 hrest).1, ?_⟩
  simp only [List.length_append] at hroom
  unfold structsAt treeSize
  omega

/-- **The scan finds the property**, if it looks for the place that the property names. -/
theorem scansTo_present (h : IsFdt (treeBlob ram) t) (htokens : t.tokens = pre ++ Token.prop n v :: post)
    (hnamed : t.Named n.toNat initrdEndName) (hlen : v.length = 8)
    (hother : ∀ m w, Token.prop m w ∈ pre ++ post → ¬ t.Named m.toNat initrdEndName) :
    ScansTo ram (dtbWord ram 4) n (dtbWord ram 8) (BitVec.ofNat 32 (structsAt ram + (tokenBytes pre).length)) := by
  obtain ⟨hpre, hprop, hroom⟩ := holds_present h htokens
  have hsize := treeSize_lt ram
  have hbytes := Token.bytes_length_prop n v
  have hmem : ∀ u, u ∈ pre → u ∈ t.tokens := fun u hu => htokens ▸ List.mem_append_left _ hu
  have hquiet : Quiet ram n (structsAt ram) (tokenBytes pre).length := by
    refine quiet_tokens pre hpre (by omega) fun u hu => ⟨?_, ?_⟩
    · rintro m w rfl ⟨rfl, -⟩
      exact hother m w (List.mem_append_left _ hu) hnamed
    · rintro name rfl
      exact h.node_names name (hmem _ hu)
  rw [word_eight]
  refine hquiet.back (by rw [word_four]; omega) (scansTo_hit ?_ ?_)
  · rw [BitVec.le_def, word_four, BitVec.toNat_add, BitVec.toNat_ofNat]
    have h12 : (12 : U32).toNat = 12 := rfl
    omega
  · exact (scanHit_prop hprop (by omega)).2 ⟨rfl, hlen⟩

/-- **The patch is at the property exactly when this names the first copy.** -/
theorem patches_present (h : IsFdt (treeBlob ram) t) (htokens : t.tokens = pre ++ Token.prop n v :: post)
    (hnamed : t.Named n.toNat initrdEndName) (hlen : v.length = 8)
    (hother : ∀ m w, Token.prop m w ∈ pre ++ post → ¬ t.Named m.toNat initrdEndName) :
    Patches ram (BitVec.ofNat 32 (structsAt ram + (tokenBytes pre).length)) ↔
      FirstAt (listCells t.strings) dtbTarget t.strings.length n.toNat ∧ n.msb = false := by
  obtain ⟨-, hprop, hroom⟩ := holds_present h htokens
  have hsize := treeSize_lt ram
  rw [patches_iff h]
  constructor
  · rintro ⟨s, hs, hmsb, hscan⟩
    obtain ⟨rfl, -⟩ := (scanHit_prop hprop (by omega)).1 hscan.hit
    exact ⟨hs, hmsb⟩
  · rintro ⟨hs, hmsb⟩
    exact ⟨n, hs, hmsb, scansTo_present h htokens hnamed hlen hother⟩

/-- **A patch at the property is the wanted one.** -/
theorem putDtbValue_wanted {d : Nat} (hroom : structsAt ram + d + 20 ≤ treeSize ram) (x : U64) {j : Nat}
    (hj : j < treeSize ram) : treeBlob (putDtbValue ram (BitVec.ofNat 32 (structsAt ram + d)) x) j =
      wantedBlob ram (some (d, n)) x j := by
  have hsize := treeSize_lt ram
  have hq : BitVec.ofNat 32 (structsAt ram + d) + 12 = BitVec.ofNat 32 (structsAt ram + d + 12) := (BitVec.ofNat_add _ 12).symm
  have hdist : (BitVec.ofNat 32 j - BitVec.ofNat 32 (structsAt ram + d + 12)).toNat =
      (2 ^ 32 - (structsAt ram + d + 12) + j) % 2 ^ 32 := by
    rw [BitVec.toNat_sub, BitVec.toNat_ofNat, BitVec.toNat_ofNat]
    omega
  rw [putDtbValue_blob _ _ (by omega), hq, hdist]
  unfold wantedBlob
  dsimp only
  by_cases hin : structsAt ram + d + 12 ≤ j ∧ j < structsAt ram + d + 12 + 8
  · have heq : (2 ^ 32 - (structsAt ram + d + 12) + j) % 2 ^ 32 = j - (structsAt ram + d + 12) := by omega
    rw [heq, if_pos hin, if_pos (by omega)]
  · rw [if_neg hin, if_neg (by omega)]

end Present

/-- **A patch that is not at the property is not the wanted one** for every value. -/
theorem not_exact_present {d : Nat} {n : U32} (hroom : structsAt ram + d + 20 ≤ treeSize ram)
    (hno : ¬ Patches ram (BitVec.ofNat 32 (structsAt ram + d))) : ¬ PatchesExactly ram (some (d, n)) := by
  intro hexact
  have hsize := treeSize_lt ram
  -- the first byte of the value
  obtain ⟨j, hj⟩ : ∃ j, j = structsAt ram + d + 12 := ⟨_, rfl⟩
  have hwanted : ∀ v, wantedBlob ram (some (d, n)) v j = byteOf v 7 := by
    intro v
    unfold wantedBlob
    dsimp only
    rw [if_pos (by omega), hj, Nat.sub_self]
  have hvalue : ∀ v, treeBlob (patchDtb ram (v - initrdAddr)) j = byteOf v 7 := by
    intro v
    rw [hexact _ j (by omega), initrd_value, hwanted]
  have hold : ¬ ∀ v, treeBlob (patchDtb ram (v - initrdAddr)) j = treeBlob ram j := by
    intro hold
    have h0 := (hold 0).symm.trans (hvalue 0)
    have h1 := (hold allOnes).symm.trans (hvalue allOnes)
    rw [h0, byteOf_zero, byteOf_allOnes 7 (by decide)] at h1
    exact absurd h1 (by decide)
  by_cases hsome : ∃ q, Patches ram q
  · obtain ⟨q, hq⟩ := hsome
    have hput : ∀ v, treeBlob (patchDtb ram (v - initrdAddr)) j =
        if (BitVec.ofNat 32 j - (q + 12)).toNat < 8 then byteOf v (7 - (BitVec.ofNat 32 j - (q + 12)).toNat)
        else treeBlob ram j := by
      intro v
      rw [patchDtb_of_patches ram hq, initrd_value, putDtbValue_blob q v (by omega)]
    by_cases hin : (BitVec.ofNat 32 j - (q + 12)).toNat < 8
    · have hne : (BitVec.ofNat 32 j - (q + 12)).toNat ≠ 0 := by
        intro hz
        refine hno ?_
        have hzero : BitVec.ofNat 32 j - (q + 12) = 0#32 := BitVec.eq_of_toNat_eq hz
        have hat : BitVec.ofNat 32 (structsAt ram + d) + 12 = q + 12 := by
          have hadd : BitVec.ofNat 32 j = BitVec.ofNat 32 (structsAt ram + d) + 12 := hj ▸ BitVec.ofNat_add _ 12
          rw [← hadd]
          rw [← BitVec.sub_add_cancel (BitVec.ofNat 32 j) (q + 12), hzero, BitVec.zero_add]
        rw [show BitVec.ofNat 32 (structsAt ram + d) = q from (BitVec.add_left_inj 12).1 hat]
        exact hq
      have htop := (hput topOnes).symm.trans (hvalue topOnes)
      rw [if_pos hin, byteOf_topOnes _ (by omega)] at htop
      exact absurd htop (by decide)
    · exact hold fun v => (hput v).trans (if_neg hin)
  · exact hold fun v => congrArg (treeBlob · j) (patchDtb_of_not_patches ram (not_exists.1 hsome) _)

/-- **With the property absent**, the blob stays as it is exactly when no record that follows it is written to. -/
theorem exact_absent (h : IsFdt (treeBlob ram) t) : PatchesExactly ram none ↔ ∀ q, ¬ StrayRecord ram t q := by
  have hsize := treeSize_lt ram
  constructor
  · rintro hexact q ⟨hscan, i, hi, hin⟩
    have hq : Patches ram q := (patches_iff h).2 hscan
    obtain ⟨j, hj⟩ : ∃ j, j = (q + 12 + BitVec.ofNat 32 i).toNat := ⟨_, rfl⟩
    have hat : (BitVec.ofNat 32 j - (q + 12)).toNat = i := by
      rw [hj, BitVec.ofNat_toNat, BitVec.setWidth_eq, BitVec.add_comm, BitVec.add_sub_cancel, BitVec.toNat_ofNat]
      omega
    have hsame : ∀ v, byteOf v (7 - i) = treeBlob ram j := by
      intro v
      have hblob := hexact (v - initrdAddr) j (by omega)
      rw [patchDtb_of_patches ram hq, initrd_value, putDtbValue_blob q v (by omega), hat, if_pos hi] at hblob
      exact hblob
    have hclash := (hsame 0).trans (hsame allOnes).symm
    rw [byteOf_zero, byteOf_allOnes _ (by omega)] at hclash
    exact absurd hclash (by decide)
  · intro hno initrdSize j hj
    show treeBlob (patchDtb ram initrdSize) j = treeBlob ram j
    by_cases hsome : ∃ q, Patches ram q
    · obtain ⟨q, hq⟩ := hsome
      rw [patchDtb_of_patches ram hq, putDtbValue_blob q _ (by omega)]
      refine if_neg fun hin => hno q ⟨(patches_iff h).1 hq, _, hin, ?_⟩
      have hat : q + 12 + BitVec.ofNat 32 (BitVec.ofNat 32 j - (q + 12)).toNat = BitVec.ofNat 32 j := by
        rw [BitVec.ofNat_toNat, BitVec.setWidth_eq, BitVec.add_comm]
        exact BitVec.sub_add_cancel _ _
      rw [hat, BitVec.toNat_ofNat]
      omega
    · rw [patchDtb_of_not_patches ram (not_exists.1 hsome)]

/-- **The patch is exact** on a flattened tree with at most one `linux,initrd-end`, of 8 bytes, exactly when this names
the first copy of its name, or when it is absent and nothing after the tree looks like it. -/
theorem patchesExactly_iff (h : IsFdt (treeBlob ram) t) {place : Option (Nat × U32)} (hplace : InitrdEnd t place) :
    PatchesExactly ram place ↔ NameIsFirst ram t place := by
  cases hplace with
  | absent _ => exact exact_absent h
  | @present pre post n v htokens hnamed hlen hother =>
    have hroom := (holds_present h htokens).2.2
    rw [Token.bytes_length_prop, hlen] at hroom
    show _ ↔ FirstAt (listCells t.strings) dtbTarget t.strings.length n.toNat ∧ n.msb = false
    rw [← patches_present h htokens hnamed hlen hother]
    constructor
    · intro hexact
      by_contra hno
      exact not_exact_present (by omega) hno hexact
    · intro hq initrdSize j hj
      rw [patchDtb_of_patches ram hq]
      exact putDtbValue_wanted (by omega) _ hj

/-- What the scan finds in a tree without the property is past the tree. -/
theorem scan_past_tree (h : IsFdt (treeBlob ram) t) (habsent : InitrdEnd t none) {s q : U32}
    (hs : FirstAt (listCells t.strings) dtbTarget t.strings.length s.toNat)
    (hscan : ScansTo ram (dtbWord ram 4) s (dtbWord ram 8) q) :
    ScansTo ram (dtbWord ram 4) s (BitVec.ofNat 32 (structsAt ram + (structBlock t.tokens).length)) q := by
  cases habsent with
  | absent hnone =>
    obtain ⟨htokens, hend⟩ := Blob.holds_append.1 h.structs
    have hroom := h.structs_room
    have hsize := treeSize_lt ram
    have hlen : (structBlock t.tokens).length = (tokenBytes t.tokens).length + 4 := by
      unfold structBlock
      rw [List.length_append, be32_length]
    have hfits : structsAt ram + (structBlock t.tokens).length ≤ treeSize ram := hroom
    have hquiet : Quiet ram s (structsAt ram) (tokenBytes t.tokens).length := by
      refine quiet_tokens t.tokens htokens (by omega) fun u hu => ⟨?_, ?_⟩
      · rintro m w rfl ⟨rfl, -⟩
        exact hnone m w hu hs.occurs
      · rintro name rfl
        exact h.node_names name hu
    have hlast : Quiet ram s (structsAt ram + (tokenBytes t.tokens).length) 4 := by
      refine quiet_word (by omega) ?_
      rw [show (treeBlob ram).word (structsAt ram + (tokenBytes t.tokens).length) = 9 from hend.word]
      decide
    rw [hlen]
    rw [word_eight] at hscan
    exact (hquiet.append hlast).past hscan

end Exact

/-! ## A name that ends another -/

section Tail

/-- The strings `xlinux,initrd-end` and `linux,initrd-end`, each of a property. -/
def tailTree : Tree where
  tokens := [.beginNode [], .prop 0 (List.replicate 8 0), .prop 18 (List.replicate 8 0), .endNode]
  strings := 0x78 :: dtbTarget ++ dtbTarget

/-- Version 17: header, an empty reservation block, structure block and strings block. -/
def tailBytes : List U8 :=
  be32 0xd00dfeed ++ be32 147 ++ be32 56 ++ be32 112 ++ be32 40 ++ be32 17 ++ be32 16 ++ be32 0 ++ be32 35 ++ be32 56 ++
    List.replicate 16 0 ++ structBlock tailTree.tokens ++ tailTree.strings

def tailRam : Mem := fun a => tailBytes.getD (a - (dtbAddr - ramBase)).toNat 0

theorem holds_of_forall {b : Blob} {o : Nat} {l : List U8} (h : ∀ i, i < l.length → b (o + i) = l.getD i 0) : b.Holds o l := by
  intro i x hx
  have hi : i < l.length := (List.getElem?_eq_some_iff.1 hx).1
  rw [h i hi, List.getD_eq_getElem?_getD, hx]
  rfl

theorem tail_isFdt : IsFdt (treeBlob tailRam) tailTree where
  magic := by decide +kernel
  nested := by decide
  node_names := by
    intro name hname
    simp [tailTree] at hname
    simp [hname]
  prop_names := by
    intro n v hprop
    simp only [tailTree, List.mem_cons, Token.prop.injEq, List.not_mem_nil, or_false, false_or, reduceCtorEq] at hprop
    rcases hprop with ⟨rfl, -⟩ | ⟨rfl, -⟩
    · exact ⟨0x78 :: initrdEndName, by decide, (occursAt_iff_take (List.cons_ne_nil _ _) 0).2 (by decide)⟩
    · exact ⟨initrdEndName, by decide, (occursAt_iff_take (by decide) 18).2 (by decide)⟩
  structs := holds_of_forall (by decide +kernel)
  strings := holds_of_forall (by decide +kernel)
  strings_size := by decide +kernel
  header := by decide +kernel
  structs_room := by decide +kernel
  strings_room := by decide +kernel

theorem tail_initrdEnd : InitrdEnd tailTree (some (28, 18)) := by
  refine @InitrdEnd.present tailTree [.beginNode [], .prop 0 (List.replicate 8 0)] [.endNode] 18 (List.replicate 8 0)
    rfl ((occursAt_iff_take (by decide) 18).2 (by decide)) rfl ?_
  intro m w hother hnamed
  simp only [List.cons_append, List.nil_append, List.mem_cons, Token.prop.injEq, List.not_mem_nil, or_false, false_or,
    reduceCtorEq] at hother
  obtain ⟨rfl, -⟩ := hother
  exact absurd ((occursAt_iff_take (by decide) 0).1 hnamed) (by decide)

/-- **The name is found as the end of the other**, and the property that has it is not patched. -/
theorem not_patchesExactly_tail : IsFdt (treeBlob tailRam) tailTree ∧ InitrdEnd tailTree (some (28, 18)) ∧
    ¬ PatchesExactly tailRam (some (28, 18)) := by
  refine ⟨tail_isFdt, tail_initrdEnd, not_exact_present (by decide +kernel) ?_⟩
  rw [patches_iff tail_isFdt]
  rintro ⟨s, hs, -, hscan⟩
  have hocc : OccursAt (listCells tailTree.strings) dtbTarget tailTree.strings.length 1 :=
    (occursAt_iff_take (by decide) 1).2 (by decide)
  have hle := hs.le hocc
  have hhit : dtbWord tailRam (BitVec.ofNat 32 (structsAt tailRam + 28) + 8) = s := hscan.hit.2.1
  have hname : dtbWord tailRam (BitVec.ofNat 32 (structsAt tailRam + 28) + 8) = 18 := by decide +kernel
  obtain rfl : 18 = s := hname.symm.trans hhit
  exact absurd hle (by decide)

/-- The theorem at that tree. -/
theorem patchesExactly_iff_tail : PatchesExactly tailRam (some (28, 18)) ↔ NameIsFirst tailRam tailTree (some (28, 18)) :=
  patchesExactly_iff tail_isFdt tail_initrdEnd

end Tail

end PgLinux
