import PgLinux.DeviceTree
/-!
# TreeBounds — where the device-tree patch ends, and which bytes of guest RAM it touches

The searches of the patch take their offsets and lengths from the blob.  A search goes round for ever where a record leads
back to itself, and it leaves guest RAM where an offset leads outside.
-/
namespace PgLinux

open Search Orbit Fdt

/-! ## The patch with what it touches -/

section Touches

variable (ram : Mem)

/-- `dtb[p]` to `dtb[p + n - 1]`, by their offset in guest RAM. -/
def dtbTouch (p : U32) (n : Nat) : List U64 :=
  (List.range n).map fun k => dtbAddr - ramBase + (p + BitVec.ofNat 32 k).setWidth 64

/-- A round of the search for the name: `memcmp` of 17 bytes. -/
def stringTouch (offStrings sizeStrings i : U32) : List U64 :=
  if i + 17 ≤ sizeStrings then
    (List.range 17).map fun k => dtbAddr - ramBase + offStrings.setWidth 64 + i.setWidth 64 + BitVec.ofNat 64 k
  else []

/-- A round of the scan: a token, the length and name of a property, the value where it is stored. -/
def recordTouch (totalsize strOff p : U32) : List U64 :=
  if p + 12 ≤ totalsize then
    dtbTouch p 4 ++ if dtbWord ram p = 3 then dtbTouch (p + 4) 8 ++ if ScanHit ram strOff p then dtbTouch (p + 12) 8 else []
      else []
  else []

/-- The patch, with `fuel` rounds for each loop: guest RAM, and what was read and written of it. -/
def patchRun (fuel : Nat) (initrdSize : U64) : Option (Mem × List U64) :=
  if dtbWord ram 0 = 0xd00dfeed then
    let head := dtbTouch 0 4 ++ dtbTouch 4 4 ++ dtbTouch 12 4 ++ dtbTouch 32 4
    match seekLog (stringTouch (dtbWord ram 12) (dtbWord ram 32)) (· + 1)
        (StringStop ram (dtbWord ram 12) (dtbWord ram 32)) fuel 0 with
    | none => none
    | some (i, t) =>
      if i + 17 ≤ dtbWord ram 32 ∧ i.msb = false then
        match seekLog (recordTouch ram (dtbWord ram 4) i) (scanNext ram) (ScanStop ram (dtbWord ram 4) i) fuel
            (dtbWord ram 8) with
        | none => none
        | some (q, u) =>
          some (if q + 12 ≤ dtbWord ram 4 then putDtbValue ram q (initrdAddr + initrdSize) else ram,
            head ++ t ++ dtbTouch 8 4 ++ u)
      else some (ram, head ++ t)
  else some (ram, dtbTouch 0 4)

/-- The patch ends, and touches nothing outside guest RAM. -/
def PatchSafe (ramSize : U64) (initrdSize : U64) : Prop :=
  ∃ fuel ram' touched, patchRun ram fuel initrdSize = some (ram', touched) ∧ ∀ a ∈ touched, a < ramSize

/-! ## The condition -/

/-- The end of guest RAM, by offset in the device tree: nothing where the tree begins past it. -/
def treeRoom (ramSize : U64) : Nat := ramSize.toNat - (dtbAddr - ramBase).toNat

/-- The strings block is in RAM, up to the first copy of the name, or all of it where there is none; and without a copy
its size is not the greatest there is. -/
def NameFits (ramSize : U64) : Prop :=
  (∃ s : U32, FindsName ram (dtbWord ram 12) (dtbWord ram 32) 0 s ∧
    (dtbWord ram 12).toNat + s.toNat + 17 ≤ treeRoom ramSize) ∨
  (∀ s, ¬ FindsName ram (dtbWord ram 12) (dtbWord ram 32) 0 s) ∧ (dtbWord ram 32).toNat ≠ 2 ^ 32 - 1 ∧
    (17 ≤ (dtbWord ram 32).toNat → (dtbWord ram 12).toNat + (dtbWord ram 32).toNat ≤ treeRoom ramSize)

/-- No record that the scan comes to leads back to itself, and all of them are in RAM. -/
def RecordsFit (ramSize : U64) (strOff : U32) : Prop :=
  ∀ q, ComesTo (scanNext ram) (ScanStop ram (dtbWord ram 4) strOff) (dtbWord ram 8) q →
    (∀ a ∈ recordTouch ram (dtbWord ram 4) strOff q, a < ramSize) ∧
      ¬ ComesBack (scanNext ram) (ScanStop ram (dtbWord ram 4) strOff) q

/-- The blob is a tree only by its magic number, or its header, its strings and its records fit in RAM. -/
structure TreeFits (ramSize : U64) : Prop where
  magic : 4 ≤ treeRoom ramSize
  header : dtbWord ram 0 = 0xd00dfeed → 36 ≤ treeRoom ramSize
  name : dtbWord ram 0 = 0xd00dfeed → NameFits ram ramSize
  records : dtbWord ram 0 = 0xd00dfeed → ∀ s, FindsName ram (dtbWord ram 12) (dtbWord ram 32) 0 s → s.msb = false →
    RecordsFit ram ramSize s

/-- **The run computes the patch.** -/
theorem patchRun_eq {fuel : Nat} {initrdSize : U64} {ram' : Mem} {touched : List U64}
    (h : patchRun ram fuel initrdSize = some (ram', touched)) : ram' = patchDtb ram initrdSize := by
  unfold patchRun at h
  split at h
  next hmagic =>
    dsimp only at h
    split at h
    · cases h
    next i t hi =>
      have hname : StopsAt (· + 1) (StringStop ram (dtbWord ram 12) (dtbWord ram 32)) 0 i :=
        ((seekLog_allowed fun _ => True).1 ⟨fuel, t, hi, fun _ _ => trivial⟩).1
      split at h
      next hin =>
        split at h
        · cases h
        next q u hq =>
          have hrec : StopsAt (scanNext ram) (ScanStop ram (dtbWord ram 4) i) (dtbWord ram 8) q :=
            ((seekLog_allowed fun _ => True).1 ⟨fuel, u, hq, fun _ _ => trivial⟩).1
          obtain ⟨rfl, -⟩ := Prod.mk.inj (Option.some.inj h)
          split
          next hroom =>
            have hp : Patches ram q := ⟨hmagic, i, ⟨hname, hin.1⟩, hin.2, hrec, hroom⟩
            exact (patchDtb_of_patches ram hp initrdSize).symm
          next hroom =>
            refine (patchDtb_of_not_patches ram ?_ initrdSize).symm
            rintro q' ⟨-, s, hs, -, hscan⟩
            obtain rfl := hs.stopsAt.unique hname
            obtain rfl := hscan.stopsAt.unique hrec
            exact hroom hscan.inTree
      next hin =>
        obtain ⟨rfl, -⟩ := Prod.mk.inj (Option.some.inj h)
        refine (patchDtb_of_not_patches ram ?_ initrdSize).symm
        rintro q ⟨-, s, hs, hmsb, -⟩
        obtain rfl := hs.stopsAt.unique hname
        exact hin ⟨hs.room, hmsb⟩
  next hmagic =>
    obtain ⟨rfl, -⟩ := Prod.mk.inj (Option.some.inj h)
    exact (patchDtb_of_not_patches ram (fun q hq => hmagic hq.1) initrdSize).symm

end Touches

/-! ## What is in RAM -/

section Bounds

variable {ram : Mem} {ramSize : U64}

theorem tree_offset : (dtbAddr - ramBase).toNat = 0x2000000 := by decide

/-- An offset in the tree that is far from the top of the address space. -/
theorem offset_lt {x : Nat} (hx : x < 2 ^ 40) : dtbAddr - ramBase + BitVec.ofNat 64 x < ramSize ↔ x < treeRoom ramSize := by
  unfold treeRoom
  rw [BitVec.lt_def, BitVec.toNat_add, BitVec.toNat_ofNat, tree_offset]
  omega

/-- A run of bytes below 4 GiB. -/
theorem dtbTouch_fits {p n : Nat} (hp : p + n < 2 ^ 32) (hn : 0 < n) :
    (∀ a ∈ dtbTouch (BitVec.ofNat 32 p) n, a < ramSize) ↔ p + n ≤ treeRoom ramSize := by
  have hat : ∀ k, k < n → dtbAddr - ramBase + (BitVec.ofNat 32 p + BitVec.ofNat 32 k).setWidth 64 =
      dtbAddr - ramBase + BitVec.ofNat 64 (p + k) := by
    intro k hk
    rw [← BitVec.ofNat_add, ← BitVec.ofNat_toNat, BitVec.toNat_ofNat, Nat.mod_eq_of_lt (by omega)]
  unfold dtbTouch
  simp only [List.mem_map, List.mem_range, forall_exists_index, and_imp, forall_apply_eq_imp_iff₂]
  constructor
  · intro h
    have hlast := h (n - 1) (by omega)
    rw [hat _ (by omega), offset_lt (by omega)] at hlast
    omega
  · intro h k hk
    rw [hat k hk, offset_lt (by omega)]
    omega

theorem stringTouch_fits {off size : U32} {k : Nat} (hk : k < 2 ^ 32) :
    (∀ a ∈ stringTouch off size (BitVec.ofNat 32 k), a < ramSize) ↔
      (BitVec.ofNat 32 k + 17 ≤ size → off.toNat + k + 17 ≤ treeRoom ramSize) := by
  have hoff := off.isLt
  have hat : ∀ t, dtbAddr - ramBase + off.setWidth 64 + (BitVec.ofNat 32 k).setWidth 64 + BitVec.ofNat 64 t =
      dtbAddr - ramBase + BitVec.ofNat 64 (off.toNat + k + t) := by
    intro t
    rw [← BitVec.ofNat_toNat, ← BitVec.ofNat_toNat, BitVec.toNat_ofNat, Nat.mod_eq_of_lt hk, BitVec.ofNat_add,
      BitVec.ofNat_add, BitVec.add_assoc, BitVec.add_assoc, BitVec.add_assoc]
  unfold stringTouch
  split
  next hin =>
    simp only [List.mem_map, List.mem_range, forall_exists_index, and_imp, forall_apply_eq_imp_iff₂, hat]
    constructor
    · intro h _
      have hlast := h 16 (by decide)
      rw [offset_lt (by omega)] at hlast
      omega
    · intro h t ht
      have hroom := h hin
      rw [offset_lt (by omega)]
      omega
  next hin => exact iff_of_true (fun a ha => nomatch ha) fun h => absurd h hin

/-- The search comes to its places in order. -/
theorem comesTo_string {off size z : U32} : ComesTo (· + 1) (StringStop ram off size) 0 z ↔
    ∃ k, k < 2 ^ 32 ∧ z = BitVec.ofNat 32 k ∧ ∀ j, j < k → ¬ StringStop ram off size (BitVec.ofNat 32 j) := by
  constructor
  · rintro ⟨k, hk, hnot⟩
    simp only [iterate_succ_zero] at hk hnot
    refine ⟨z.toNat, z.isLt, by rw [BitVec.ofNat_toNat, BitVec.setWidth_eq], fun j hj => hnot j ?_⟩
    have hz : z.toNat ≤ k := by
      rw [← hk, BitVec.toNat_ofNat]
      exact Nat.mod_le _ _
    omega
  · rintro ⟨k, -, rfl, hnot⟩
    refine ⟨k, iterate_succ_zero k, fun j hj => ?_⟩
    rw [iterate_succ_zero]
    exact hnot j hj

theorem stopsAt_comesTo {f : U32 → U32} {stop : U32 → Prop} {x y : U32} (h : StopsAt f stop x y) : ComesTo f stop x y := by
  obtain ⟨k, hk, -, hnot⟩ := h
  exact ⟨k, hk, hnot⟩

theorem add_seventeen {k : Nat} (hk : k + 17 < 2 ^ 32) (size : U32) : BitVec.ofNat 32 k + 17 ≤ size ↔ k + 17 ≤ size.toNat := by
  have h17 : (17 : U32).toNat = 17 := rfl
  rw [BitVec.le_def, BitVec.toNat_add, BitVec.toNat_ofNat]
  omega

/-- Past the end of the strings block, where this ends below 4 GiB. -/
theorem stringStop_end {off size : U32} (hsize : size.toNat ≠ 2 ^ 32 - 1) :
    StringStop ram off size (BitVec.ofNat 32 (size.toNat - 16)) := by
  have hlt := size.isLt
  refine .inl ?_
  rw [add_seventeen (by omega)]
  omega

/-- A place that is not in the block is past its end. -/
theorem stop_past {size y : U32} (hout : ¬ y + 17 ≤ size) :
    size.toNat ≠ 2 ^ 32 - 1 ∧ size.toNat < y.toNat + 17 := by
  have h17 : (17 : U32).toNat = 17 := rfl
  have hlt := (y + 17).isLt
  rw [BitVec.le_def] at hout
  have hsum : (y + 17).toNat ≤ y.toNat + 17 := by
    rw [BitVec.toNat_add, h17]
    exact Nat.mod_le _ _
  omega

/-- **The search of the strings block ends in RAM** exactly when this fits. -/
theorem nameFits_iff : ((∃ y, StopsAt (· + 1) (StringStop ram (dtbWord ram 12) (dtbWord ram 32)) 0 y) ∧
    ∀ z, ComesTo (· + 1) (StringStop ram (dtbWord ram 12) (dtbWord ram 32)) 0 z →
      ∀ a ∈ stringTouch (dtbWord ram 12) (dtbWord ram 32) z, a < ramSize) ↔ NameFits ram ramSize := by
  unfold NameFits
  generalize dtbWord ram 12 = off
  generalize dtbWord ram 32 = size
  have hlt := size.isLt
  have hself : ∀ y : U32, BitVec.ofNat 32 y.toNat = y := fun y => by rw [BitVec.ofNat_toNat, BitVec.setWidth_eq]
  constructor
  · rintro ⟨⟨y, hy⟩, hfits⟩
    by_cases hin : y + 17 ≤ size
    · left
      refine ⟨y, ⟨hy, hin⟩, (@stringTouch_fits _ _ size _ y.isLt).1 ?_ (by rwa [hself])⟩
      rw [hself]
      exact hfits y (stopsAt_comesTo hy)
    · right
      obtain ⟨hne, hpast⟩ := stop_past hin
      refine ⟨fun s hs => ?_, hne, fun h17 => ?_⟩
      · obtain rfl := hs.stopsAt.unique hy
        exact hin hs.room
      · obtain ⟨k, hk, hky, hnot⟩ := comesTo_string.1 (stopsAt_comesTo hy)
        have hky' : y.toNat = k := by
          rw [hky, BitVec.toNat_ofNat, Nat.mod_eq_of_lt hk]
        have hcomes := comesTo_string.2 ⟨size.toNat - 17, by omega, rfl, fun j hj => hnot j (by omega)⟩
        have hroom := (stringTouch_fits (by omega)).1 (hfits _ hcomes) ((add_seventeen (by omega) size).2 (by omega))
        omega
  · rintro (⟨s, hs, hroom⟩ | ⟨hnone, hne, hroom⟩)
    · refine ⟨⟨s, hs.stopsAt⟩, fun z hz => ?_⟩
      obtain ⟨k, hk, rfl, hnot⟩ := comesTo_string.1 hz
      refine (stringTouch_fits hk).2 fun _ => ?_
      have hks : k ≤ s.toNat := Nat.le_of_not_lt fun h => hnot s.toNat h (by rw [hself]; exact hs.stopsAt.stops)
      omega
    · have hend := @stringStop_end ram off size hne
      refine ⟨exists_stopsAt ⟨size.toNat - 16, by rw [iterate_succ_zero]; exact hend⟩, fun z hz => ?_⟩
      obtain ⟨k, hk, rfl, hnot⟩ := comesTo_string.1 hz
      refine (stringTouch_fits hk).2 fun hin => ?_
      have hkend : k ≤ size.toNat - 16 := Nat.le_of_not_lt fun h => hnot _ h hend
      rw [add_seventeen (by omega)] at hin
      have := hroom (by omega)
      omega

theorem finite_word : Finite U32 := Finite.of_injective wordCode wordCode_injective

/-- **The scan ends in RAM** exactly when its records fit. -/
theorem recordsFit_iff {s : U32} : ((∃ y, StopsAt (scanNext ram) (ScanStop ram (dtbWord ram 4) s) (dtbWord ram 8) y) ∧
    ∀ z, ComesTo (scanNext ram) (ScanStop ram (dtbWord ram 4) s) (dtbWord ram 8) z →
      ∀ a ∈ recordTouch ram (dtbWord ram 4) s z, a < ramSize) ↔ RecordsFit ram ramSize s := by
  have := finite_word
  unfold RecordsFit
  rw [stops_iff]
  exact ⟨fun h q hq => ⟨h.2 q hq, h.1 q hq⟩, fun h => ⟨fun q hq => (h q hq).2, fun q hq => (h q hq).1⟩⟩

/-- The words of the header that the patch reads. -/
theorem header_fits {p : U32} (hp : p.toNat < 64) : (∀ a ∈ dtbTouch p 4, a < ramSize) ↔ p.toNat + 4 ≤ treeRoom ramSize := by
  have h := @dtbTouch_fits ramSize p.toNat 4 (by omega) (by decide)
  rwa [BitVec.ofNat_toNat, BitVec.setWidth_eq] at h

theorem forall_append {l m : List U64} {P : U64 → Prop} : (∀ a ∈ l ++ m, P a) ↔ (∀ a ∈ l, P a) ∧ ∀ a ∈ m, P a :=
  List.forall_mem_append

/-- What the patch reads of the header before its searches, once it has seen the magic number. -/
theorem headers_fit : (∀ a ∈ dtbTouch 0 4 ++ dtbTouch 4 4 ++ dtbTouch 12 4 ++ dtbTouch 32 4, a < ramSize) ↔
    36 ≤ treeRoom ramSize := by
  have h0 : (∀ a ∈ dtbTouch 0 4, a < ramSize) ↔ 0 + 4 ≤ treeRoom ramSize := header_fits (by decide)
  have h4 : (∀ a ∈ dtbTouch 4 4, a < ramSize) ↔ 4 + 4 ≤ treeRoom ramSize := header_fits (by decide)
  have h12 : (∀ a ∈ dtbTouch 12 4, a < ramSize) ↔ 12 + 4 ≤ treeRoom ramSize := header_fits (by decide)
  have h32 : (∀ a ∈ dtbTouch 32 4, a < ramSize) ↔ 32 + 4 ≤ treeRoom ramSize := header_fits (by decide)
  rw [forall_append, forall_append, forall_append, h0, h4, h12, h32]
  omega

/-- A run, taken apart. -/
theorem PatchSafe.fits {initrdSize : U64} (hmagic : dtbWord ram 0 = 0xd00dfeed) (h : PatchSafe ram ramSize initrdSize) :
    36 ≤ treeRoom ramSize ∧ NameFits ram ramSize ∧
      ∀ s, FindsName ram (dtbWord ram 12) (dtbWord ram 32) 0 s → s.msb = false → RecordsFit ram ramSize s := by
  obtain ⟨fuel, ram', touched, hrun, hall⟩ := h
  unfold patchRun at hrun
  rw [if_pos hmagic] at hrun
  dsimp only at hrun
  split at hrun
  · cases hrun
  next i t hi =>
    split at hrun
    next hin =>
      split at hrun
      · cases hrun
      next q u hq =>
        obtain ⟨-, rfl⟩ := Prod.mk.inj (Option.some.inj hrun)
        rw [forall_append, forall_append, forall_append, headers_fit] at hall
        obtain ⟨⟨⟨hhead, ht⟩, -⟩, hu⟩ := hall
        have hname := (seekLog_allowed (· < ramSize)).1 ⟨fuel, t, hi, ht⟩
        have hrec := (seekLog_allowed (· < ramSize)).1 ⟨fuel, u, hq, hu⟩
        refine ⟨hhead, nameFits_iff.1 ⟨⟨i, hname.1⟩, hname.2⟩, fun s hs _ => ?_⟩
        obtain rfl := hs.stopsAt.unique hname.1
        exact recordsFit_iff.1 ⟨⟨q, hrec.1⟩, hrec.2⟩
    next hin =>
      obtain ⟨-, rfl⟩ := Prod.mk.inj (Option.some.inj hrun)
      rw [forall_append, headers_fit] at hall
      have hname := (seekLog_allowed (· < ramSize)).1 ⟨fuel, t, hi, hall.2⟩
      refine ⟨hall.1, nameFits_iff.1 ⟨⟨i, hname.1⟩, hname.2⟩, fun s hs hmsb => ?_⟩
      obtain rfl := hs.stopsAt.unique hname.1
      exact absurd ⟨hs.room, hmsb⟩ hin

/-- And put together. -/
theorem patchSafe_of_fits (initrdSize : U64) (hmagic : dtbWord ram 0 = 0xd00dfeed) (hhead : 36 ≤ treeRoom ramSize)
    (hname : NameFits ram ramSize)
    (hrec : ∀ s, FindsName ram (dtbWord ram 12) (dtbWord ram 32) 0 s → s.msb = false → RecordsFit ram ramSize s) :
    PatchSafe ram ramSize initrdSize := by
  obtain ⟨⟨i, hi⟩, htouch⟩ := nameFits_iff.2 hname
  obtain ⟨n, t, hn, ht⟩ := (seekLog_allowed (· < ramSize)).2 ⟨hi, htouch⟩
  by_cases hin : i + 17 ≤ dtbWord ram 32 ∧ i.msb = false
  · obtain ⟨⟨q, hq⟩, hqtouch⟩ := recordsFit_iff.2 (hrec i ⟨hi, hin.1⟩ hin.2)
    obtain ⟨m, u, hm, hu⟩ := (seekLog_allowed (· < ramSize)).2 ⟨hq, hqtouch⟩
    have h8 : ∀ a ∈ dtbTouch 8 4, a < ramSize := (header_fits (p := 8) (by decide)).2 (show 8 + 4 ≤ _ by omega)
    have hrun : patchRun ram (max n m) initrdSize =
        some (if q + 12 ≤ dtbWord ram 4 then putDtbValue ram q (initrdAddr + initrdSize) else ram,
          dtbTouch 0 4 ++ dtbTouch 4 4 ++ dtbTouch 12 4 ++ dtbTouch 32 4 ++ t ++ dtbTouch 8 4 ++ u) := by
      unfold patchRun
      rw [if_pos hmagic]
      dsimp only
      rw [seekLog_mono (Nat.le_max_left n m) hn]
      dsimp only
      rw [if_pos hin, seekLog_mono (Nat.le_max_right n m) hm]
    refine ⟨max n m, _, _, hrun, ?_⟩
    rw [forall_append, forall_append, forall_append, headers_fit]
    exact ⟨⟨⟨hhead, ht⟩, h8⟩, hu⟩
  · have hrun : patchRun ram n initrdSize =
        some (ram, dtbTouch 0 4 ++ dtbTouch 4 4 ++ dtbTouch 12 4 ++ dtbTouch 32 4 ++ t) := by
      unfold patchRun
      rw [if_pos hmagic]
      dsimp only
      rw [hn]
      dsimp only
      rw [if_neg hin]
    refine ⟨n, _, _, hrun, ?_⟩
    rw [forall_append, headers_fit]
    exact ⟨hhead, ht⟩

/-- **The patch ends and stays in guest RAM** exactly when the blob fits. -/
theorem patchSafe_iff (ram : Mem) (ramSize initrdSize : U64) : PatchSafe ram ramSize initrdSize ↔ TreeFits ram ramSize := by
  by_cases hmagic : dtbWord ram 0 = 0xd00dfeed
  · constructor
    · intro h
      obtain ⟨hhead, hname, hrec⟩ := h.fits hmagic
      exact ⟨by omega, fun _ => hhead, fun _ => hname, fun _ => hrec⟩
    · intro h
      exact patchSafe_of_fits initrdSize hmagic (h.header hmagic) (h.name hmagic) (h.records hmagic)
  · have hrun : ∀ fuel, patchRun ram fuel initrdSize = some (ram, dtbTouch 0 4) := fun fuel => if_neg hmagic
    have h0 : (∀ a ∈ dtbTouch 0 4, a < ramSize) ↔ 0 + 4 ≤ treeRoom ramSize := header_fits (by decide)
    constructor
    · rintro ⟨fuel, ram', touched, h, hall⟩
      obtain ⟨-, rfl⟩ := Prod.mk.inj (Option.some.inj ((hrun fuel).symm.trans h))
      exact ⟨h0.1 hall, fun hm => absurd hm hmagic, fun hm => absurd hm hmagic, fun hm => absurd hm hmagic⟩
    · intro h
      exact ⟨0, ram, _, hrun 0, h0.2 h.magic⟩

end Bounds

/-! ## A record that leads to itself -/

section Loop

/-- A blob of 100 bytes with the name, and a property whose length makes the next record the same one. -/
def loopBytes : List U8 :=
  be32 0xd00dfeed ++ be32 100 ++ be32 40 ++ be32 52 ++ be32 0 ++ be32 17 ++ be32 16 ++ be32 0 ++ be32 17 ++ be32 12 ++
    be32 3 ++ be32 0xFFFFFFF1 ++ be32 0 ++ dtbTarget

def loopRam : Mem := fun a => loopBytes.getD (a - (dtbAddr - ramBase)).toNat 0

theorem loop_name : FindsName loopRam (dtbWord loopRam 12) (dtbWord loopRam 32) 0 0 :=
  ⟨(stopsAt_self (by decide +kernel)).2 rfl, by decide +kernel⟩

/-- **The patch of this blob does not end**, in the RAM of a `BOOT` and with an initrd of a page. -/
theorem not_patchSafe_loop : ¬ PatchSafe loopRam vmRamSize 0x1000 := by
  intro h
  obtain ⟨-, -, hrec⟩ := h.fits (by decide +kernel)
  obtain ⟨-, hno⟩ := hrec 0 loop_name rfl _ (comesTo_self _)
  refine hno ⟨1, Nat.one_pos, (by decide +kernel : scanNext loopRam (dtbWord loopRam 8) = dtbWord loopRam 8), fun j hj => ?_⟩
  obtain rfl : j = 0 := by omega
  show ¬ ScanStop loopRam (dtbWord loopRam 4) 0 (dtbWord loopRam 8)
  decide +kernel

end Loop

end PgLinux
