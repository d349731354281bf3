import PgLinux.Lib.Overlay
import PgLinux.DeviceTree
import PgLinux.FailedBoot
/-!
# BootImages — the images a cold BOOT puts in guest RAM

Each image has a fixed load address and the size its row gives.  An image is refused where it would run past the end of
RAM, but not where it runs into the room of the next one, which is placed after it.
-/
namespace PgLinux

open Overlay

/-! ## The images -/

/-- The assets of a cold BOOT in the order they are loaded, with their load addresses. -/
def bootAssets : List (Asset × U64) :=
  [(.firmware, firmwareAddr), (.kernel, kernelAddr), (.dtb, dtbAddr), (.initrd, initrdAddr)]

/-- The bytes from `addr` on, by their offset in guest RAM. -/
def assetImage (addr size : U64) (data : Mem) : Image U64 U8 where
  room a := (a - (addr - ramBase)).toNat < size.toNat
  byte a := data (a - (addr - ramBase))

/-- The row of an asset that can be loaded at `addr`. -/
structure Loads (row : AssetRow) (lo : LargeObject) (addr : U64) : Prop where
  oid : row.data_oid = some lo
  whole : row.size_bytes ≤ lo.size
  signed : row.size_bytes.msb = false
  inRam : addr - ramBase + row.size_bytes ≤ vmRamSize

theorem copy_eq_place (ram data : Mem) (addr size : U64) :
    ram.copy (addr - ramBase) data 0 size.toNat = place ram (assetImage addr size data) := by
  funext a
  unfold Mem.copy place assetImage
  rw [show (0 : U64) + (a - (addr - ramBase)) = a - (addr - ramBase) from BitVec.zero_add _]

theorem loReadBuf_whole {lo : LargeObject} {len : U64} (h : len ≤ lo.size) (buf : Mem) (off : U64) :
    loReadBuf (some lo) buf off len = (buf.copy off lo.data 0 len.toNat, some len) := by
  have hlt : ¬ lo.size < len := BitVec.not_lt.2 h
  unfold loReadBuf
  dsimp only
  rw [if_neg hlt]

theorem loadAssetFromDb_of_loads {assets : VmAssets} {a : Asset} {row : AssetRow} {lo : LargeObject} {addr : U64}
    (hrow : assets a = some row) (h : Loads row lo addr) (ram : Mem) :
    loadAssetFromDb assets ram vmRamSize addr a = (place ram (assetImage addr row.size_bytes lo.data), some row.size_bytes) := by
  unfold loadAssetFromDb
  rw [hrow]
  dsimp only
  rw [h.oid, if_neg (by simp), if_pos h.inRam, loReadBuf_whole h.whole, copy_eq_place]
  dsimp only
  rw [if_pos ⟨rfl, h.signed⟩]

theorem loads_of_isSome {assets : VmAssets} {a : Asset} {addr : U64} {ram : Mem}
    (h : (loadAssetFromDb assets ram vmRamSize addr a).2.isSome = true) :
    ∃ row lo, assets a = some row ∧ Loads row lo addr := by
  unfold loadAssetFromDb at h
  cases hrow : assets a with
  | none =>
    rw [hrow] at h
    exact absurd h (by simp)
  | some row =>
    rw [hrow] at h
    dsimp only at h
    cases hoid : row.data_oid with
    | none =>
      rw [hoid] at h
      exact absurd h (by simp)
    | some lo =>
      rw [hoid, if_neg (by simp)] at h
      split at h
      next hin =>
        dsimp only at h
        split at h
        next hread =>
          refine ⟨row, lo, rfl, hoid, BitVec.not_lt.1 fun hlt => ?_, hread.2, hin⟩
          have hsize : lo.size = row.size_bytes := by
            have hr := hread.1
            unfold loReadBuf at hr
            dsimp only at hr
            rw [if_pos hlt] at hr
            exact Option.some.inj hr
          exact absurd hlt (hsize ▸ BitVec.lt_irrefl _)
        next => exact absurd h (by simp)
      next => exact absurd h (by simp)

/-! ## What a cold BOOT leaves -/

/-- Guest RAM with the assets loaded, before the patch. -/
def assetRam (db : Database) (vmId : U64) : Mem := (loadBootAssets db.vm_assets (restoreRam (db.vm_state vmId)).1).1

/-- The patch writes the byte at `a`. -/
def PatchWrites (ram : Mem) (a : U64) : Prop := ∃ q, Patches ram q ∧ (a - (dtbAddr - ramBase)).toNat < 2 ^ 32 ∧
  ((a - (dtbAddr - ramBase)).setWidth 32 - (q + 12)).toNat < 8

theorem patchDtb_of_not_patchWrites {ram : Mem} {a : U64} (h : ¬ PatchWrites ram a) (initrdSize : U64) :
    patchDtb ram initrdSize a = ram a := by
  by_cases hq : ∃ q, Patches ram q
  · obtain ⟨q, hq⟩ := hq
    rw [patchDtb_of_patches ram hq]
    exact if_neg fun hin => h ⟨q, hq, hin⟩
  · rw [patchDtb_of_not_patches ram (not_exists.1 hq)]

/-- A BOOT that loads assets of these sizes and succeeds. -/
structure ColdBoot (size : Asset → U64) (dsm : Bool) (chunk : FreedChunk) (db : Database) (w : Worker)
    (st : SharedVMState) (vmId : U64) : Prop where
  notRestored : (restoreRam (db.vm_state vmId)).2 = false
  sizes : ∀ p ∈ bootAssets, ∃ row, db.vm_assets p.1 = some row ∧ row.size_bytes = size p.1
  succeeds : (workerHandleCmdBoot dsm chunk db w st vmId).2.cmd_result = 0

/-- Every cold BOOT with assets of these sizes has each of them in guest RAM, from its load address on, but for the
bytes the patch writes. -/
def ImagesIntact (size : Asset → U64) : Prop := ∀ dsm chunk db w st vmId, ColdBoot size dsm chunk db w st vmId →
  ∀ p ∈ bootAssets, ∀ row lo, db.vm_assets p.1 = some row → row.data_oid = some lo → ∀ n, n < (size p.1).toNat →
    ¬ PatchWrites (assetRam db vmId) (p.2 - ramBase + BitVec.ofNat 64 n) →
      (workerHandleCmdBoot dsm chunk db w st vmId).1.mem.ram (p.2 - ramBase + BitVec.ofNat 64 n) = lo.data (BitVec.ofNat 64 n)

/-- An asset that is not empty begins where the ones loaded before it have ended. -/
def SizesFit (size : Asset → U64) : Prop :=
  bootAssets.Pairwise fun p q => size q.1 = 0 ∨ p.2.toNat + (size p.1).toNat ≤ q.2.toNat

instance (size : Asset → U64) : Decidable (SizesFit size) := inferInstanceAs (Decidable (List.Pairwise _ _))

section Boot

variable {size : Asset → U64} {dsm : Bool} {chunk : FreedChunk} {db : Database} {w : Worker} {st : SharedVMState} {vmId : U64}

theorem complete_iff (assets : VmAssets) (ram : Mem) : (loadBootAssets assets ram).2.complete = true ↔
    ∀ p ∈ bootAssets, ∃ row lo, assets p.1 = some row ∧ Loads row lo p.2 := by
  have hsize (p : Asset × U64) (ram' : Mem) : (loadAssetFromDb assets ram' vmRamSize p.2 p.1).2.isSome = true ↔
      ∃ row lo, assets p.1 = some row ∧ Loads row lo p.2 := by
    refine ⟨loads_of_isSome, fun ⟨row, lo, hrow, h⟩ => ?_⟩
    rw [loadAssetFromDb_of_loads hrow h]
    rfl
  unfold BootSizes.complete loadBootAssets
  simp only [Bool.and_eq_true, bootAssets, List.forall_mem_cons, List.not_mem_nil, false_imp_iff, implies_true, and_true,
    ← hsize (.firmware, firmwareAddr) ram]
  rw [and_assoc, and_assoc]
  exact and_congr_right' (and_congr (hsize (.kernel, kernelAddr) _) (and_congr (hsize (.dtb, dtbAddr) _)
    (hsize (.initrd, initrdAddr) _)))

/-- The images of a cold BOOT. -/
def bootImages (size : Asset → U64) (data : Asset → Mem) : List (Image U64 U8) :=
  bootAssets.map fun p => assetImage p.2 (size p.1) (data p.1)

/-- **The assets are placed one after the other.** -/
theorem loadBootAssets_placeAll {assets : VmAssets} {data : Asset → Mem} (h : ∀ p ∈ bootAssets, ∃ row lo,
    assets p.1 = some row ∧ Loads row lo p.2 ∧ row.size_bytes = size p.1 ∧ lo.data = data p.1) (ram : Mem) :
    (loadBootAssets assets ram).1 = placeAll ram (bootImages size data) := by
  have hone : ∀ p ∈ bootAssets, ∀ ram', (loadAssetFromDb assets ram' vmRamSize p.2 p.1).1 =
      place ram' (assetImage p.2 (size p.1) (data p.1)) := by
    intro p hp ram'
    obtain ⟨row, lo, hrow, hl, hs, hd⟩ := h p hp
    rw [loadAssetFromDb_of_loads hrow hl, hs, hd]
  simp only [bootAssets, List.forall_mem_cons] at hone
  obtain ⟨hfw, hkern, hdtb, hinit, -⟩ := hone
  unfold loadBootAssets
  dsimp only
  rw [hfw, hkern, hdtb, hinit]
  rfl

/-- **A cold BOOT that succeeds has loaded every asset**, and has the patched RAM. -/
theorem ColdBoot.loaded (h : ColdBoot size dsm chunk db w st vmId) :
    (∀ p ∈ bootAssets, ∃ row lo, db.vm_assets p.1 = some row ∧ Loads row lo p.2 ∧ row.size_bytes = size p.1) ∧
      ∃ initrdSize, (workerHandleCmdBoot dsm chunk db w st vmId).1.mem.ram = patchDtb (assetRam db vmId) initrdSize := by
  obtain ⟨hcold, hsizes, hok⟩ := h
  cases dsm with
  | false => exact absurd hok (by decide : ¬ (-1 : Int) = 0)
  | true =>
    have hcold' : ¬ (restoreRam (db.vm_state vmId)).2 = true := ne_true_of_eq_false hcold
    unfold workerHandleCmdBoot at hok ⊢
    rw [if_neg (by decide : ¬ (!true) = true)] at hok ⊢
    dsimp only at hok ⊢
    rw [if_neg hcold'] at hok ⊢
    by_cases hc : (loadBootAssets db.vm_assets (restoreRam (db.vm_state vmId)).1).2.complete = true
    · refine ⟨fun p hp => ?_,
        (loadBootAssets db.vm_assets (restoreRam (db.vm_state vmId)).1).2.init.getD 0, ?_⟩
      · obtain ⟨row, lo, hrow, hl⟩ := (complete_iff _ _).1 hc p hp
        obtain ⟨row', hrow', hs⟩ := hsizes p hp
        obtain rfl : row = row' := Option.some.inj (hrow.symm.trans hrow')
        exact ⟨row, lo, hrow, hl, hs⟩
      · rw [if_pos hc]
        unfold finishBoot
        cases loadDiskFromDb db.vm_assets <;> rfl
    · rw [if_neg hc] at hok
      exact absurd hok (by decide : ¬ (-1 : Int) = 0)

end Boot

/-! ## Rooms -/

section Rooms

variable {row : AssetRow} {lo : LargeObject} {p q : Asset × U64}

theorem bootAssets_range (h : p ∈ bootAssets) : ramBase ≤ p.2 ∧ p.2 ≤ initrdAddr := by
  revert p
  decide

/-- The addresses ascend, and no asset is loaded twice. -/
theorem bootAssets_ascend : bootAssets.Pairwise fun p q => p.2.toNat ≤ q.2.toNat ∧ p.1 ≠ q.1 := by decide

/-- The room of an image that fits is a range of guest RAM. -/
theorem Loads.room_iff (h : Loads row lo p.2) (hp : p ∈ bootAssets) (data : Mem) (a : U64) :
    (assetImage p.2 row.size_bytes data).room a ↔
      p.2.toNat ≤ ramBase.toNat + a.toNat ∧ ramBase.toNat + a.toNat < p.2.toNat + row.size_bytes.toNat := by
  obtain ⟨hlow, hhigh⟩ := bootAssets_range hp
  have hin := BitVec.le_def.1 h.inRam
  have hsigned : row.size_bytes.toNat < 2 ^ 63 := by
    have hmsb := h.signed
    rw [BitVec.msb_eq_decide] at hmsb
    exact Nat.lt_of_not_le (of_decide_eq_false hmsb)
  have hsub : (p.2 - ramBase).toNat = p.2.toNat - ramBase.toNat := BitVec.toNat_sub_of_le hlow
  have hlow' : ramBase.toNat ≤ p.2.toNat := BitVec.le_def.1 hlow
  have hhigh' : p.2.toNat ≤ initrdAddr.toNat := BitVec.le_def.1 hhigh
  have hram : vmRamSize.toNat = 2 ^ 31 := by decide
  have hbase : ramBase.toNat = 2 ^ 31 := by decide
  have hinitrd : initrdAddr.toNat = 0x82200000 := by decide
  rw [BitVec.toNat_add, hsub] at hin
  show (a - (p.2 - ramBase)).toNat < row.size_bytes.toNat ↔ _
  rw [BitVec.toNat_sub, hsub]
  omega

/-- **Two images share no room exactly when the later one is empty or begins past the end of the other.** -/
theorem rooms_disjoint_iff {row' : AssetRow} {lo' : LargeObject} (h : Loads row lo p.2) (h' : Loads row' lo' q.2)
    (hp : p ∈ bootAssets) (hq : q ∈ bootAssets) (hle : p.2.toNat ≤ q.2.toNat) (data data' : Mem) :
    (∀ a, (assetImage p.2 row.size_bytes data).room a → ¬ (assetImage q.2 row'.size_bytes data').room a) ↔
      row'.size_bytes = 0 ∨ p.2.toNat + row.size_bytes.toNat ≤ q.2.toNat := by
  simp only [h.room_iff hp, h'.room_iff hq]
  have hlow : ramBase.toNat ≤ q.2.toNat := BitVec.le_def.1 (bootAssets_range hq).1
  have hempty : row'.size_bytes = 0 ↔ row'.size_bytes.toNat = 0 := BitVec.toNat_inj.symm
  rw [hempty]
  constructor
  · intro hd
    have hfirst := hd (q.2 - ramBase)
    rw [BitVec.toNat_sub_of_le (bootAssets_range hq).1] at hfirst
    omega
  · intro hfit a
    omega

end Rooms

/-! ## The sizes that fit -/

section Fit

variable {size : Asset → U64} {dsm : Bool} {chunk : FreedChunk} {db : Database} {w : Worker} {st : SharedVMState} {vmId : U64}

/-- The bytes of the assets. -/
def assetData (assets : VmAssets) (a : Asset) : Mem :=
  match (assets a).bind fun row => row.data_oid with
  | some lo => lo.data
  | none => fun _ => 0

theorem assetData_of_row {assets : VmAssets} {a : Asset} {row : AssetRow} {lo : LargeObject} (hrow : assets a = some row)
    (hoid : row.data_oid = some lo) : assetData assets a = lo.data := by
  unfold assetData
  rw [hrow, Option.bind_some, hoid]

/-- The images of a cold BOOT share no room exactly when the sizes fit. -/
theorem ColdBoot.fit_iff (h : ColdBoot size dsm chunk db w st vmId) (data : Asset → Mem) : SizesFit size ↔
    bootAssets.Pairwise fun p q => ∀ a, (assetImage p.2 (size p.1) (data p.1)).room a →
      ¬ (assetImage q.2 (size q.1) (data q.1)).room a := by
  have hpair : ∀ {p q}, p ∈ bootAssets → q ∈ bootAssets → p.2.toNat ≤ q.2.toNat ∧ p.1 ≠ q.1 →
      ((∀ a, (assetImage p.2 (size p.1) (data p.1)).room a → ¬ (assetImage q.2 (size q.1) (data q.1)).room a) ↔
        size q.1 = 0 ∨ p.2.toNat + (size p.1).toNat ≤ q.2.toNat) := by
    intro p q hp hq hle
    obtain ⟨row, lo, -, hl, hs⟩ := h.loaded.1 p hp
    obtain ⟨row', lo', -, hl', hs'⟩ := h.loaded.1 q hq
    rw [← hs, ← hs']
    exact rooms_disjoint_iff hl hl' hp hq hle.1 _ _
  exact ⟨fun hf => (bootAssets_ascend.and hf).imp_of_mem fun hp hq hpq => (hpair hp hq hpq.1).2 hpq.2,
    fun hd => (bootAssets_ascend.and hd).imp_of_mem fun hp hq hpq => (hpair hp hq hpq.1).1 hpq.2⟩

/-- The image of an asset of `db`. -/
def dbImage (db : Database) (size : Asset → U64) (p : Asset × U64) : Image U64 U8 :=
  assetImage p.2 (size p.1) (assetData db.vm_assets p.1)

theorem ColdBoot.placed (h : ColdBoot size dsm chunk db w st vmId) :
    assetRam db vmId = placeAll (restoreRam (db.vm_state vmId)).1 (bootAssets.map (dbImage db size)) := by
  refine loadBootAssets_placeAll (fun p hp => ?_) _
  obtain ⟨row, lo, hrow, hl, hs⟩ := h.loaded.1 p hp
  exact ⟨row, lo, hrow, hl, hs, (assetData_of_row hrow hl.oid).symm⟩

/-- **The assets show before the patch exactly when they agree wherever they meet.** -/
theorem ColdBoot.shows_iff (h : ColdBoot size dsm chunk db w st vmId) :
    (∀ p ∈ bootAssets, Shows (assetRam db vmId) (dbImage db size p)) ↔
      ∀ p ∈ bootAssets, ∀ q ∈ bootAssets, Agree (dbImage db size p) (dbImage db size q) := by
  have hall := @shows_placeAll_iff _ _ (restoreRam (db.vm_state vmId)).1 (bootAssets.map (dbImage db size))
  rw [← h.placed] at hall
  simp only [List.forall_mem_map] at hall
  exact hall

theorem agree_symm {i j : Image U64 U8} (h : Agree i j) : Agree j i := fun a hj hi => (h a hi hj).symm

theorem ColdBoot.agree_of_fit (h : ColdBoot size dsm chunk db w st vmId) (hfit : SizesFit size) :
    ∀ p ∈ bootAssets, ∀ q ∈ bootAssets, Agree (dbImage db size p) (dbImage db size q) := by
  have hp : bootAssets.Pairwise fun p q => Agree (dbImage db size p) (dbImage db size q) :=
    ((h.fit_iff (assetData db.vm_assets)).1 hfit).imp fun hd a hi hj => absurd hj (hd a hi)
  have hflip : bootAssets.Pairwise fun p q => Agree (dbImage db size q) (dbImage db size p) := hp.imp agree_symm
  intro p hp' q hq'
  exact List.Pairwise.forall_of_forall_of_flip (fun _ _ _ _ _ => rfl) hp hflip hp' hq'

end Fit

/-! ## Assets told apart by their bytes -/

section Labels

variable (size : Asset → U64)

def labelByte : Asset → U8
  | .firmware => 0
  | .kernel => 1
  | .dtb => 2
  | .initrd => 3
  | .disk => 4

/-- Assets of these sizes, each made of a byte of its own. -/
def labelledDb : Database where
  vm_state _ := none
  vm_assets a := some ⟨some ⟨fun _ => labelByte a, size a⟩, size a⟩
  vm_blocks _ _ := none

theorem labelByte_injective : Function.Injective labelByte := by
  intro a b
  cases a <;> cases b <;> decide

theorem labelled_coldBoot (h : ∀ p ∈ bootAssets, (size p.1).msb = false ∧ p.2 - ramBase + size p.1 ≤ vmRamSize)
    (chunk : FreedChunk) (w : Worker) (st : SharedVMState) (vmId : U64) :
    ColdBoot size true chunk (labelledDb size) w st vmId := by
  have hcold : (restoreRam ((labelledDb size).vm_state vmId)).2 = false := rfl
  refine ⟨hcold, fun p _ => ⟨_, rfl, rfl⟩, ?_⟩
  have hcomplete : (loadBootAssets (labelledDb size).vm_assets
      (restoreRam ((labelledDb size).vm_state vmId)).1).2.complete = true :=
    (complete_iff _ _).2 fun p hp => ⟨_, _, rfl, rfl, BitVec.le_refl _, (h p hp).1, (h p hp).2⟩
  unfold workerHandleCmdBoot
  rw [if_neg (by decide : ¬ (!true) = true)]
  dsimp only
  rw [if_neg (ne_true_of_eq_false hcold), if_pos hcomplete]
  rfl

variable {size}

/-- No byte of an asset is the first one of the magic word, and there is no patch. -/
theorem labelled_not_patchWrites {chunk : FreedChunk} {w : Worker} {st : SharedVMState} {vmId : U64}
    (h : ColdBoot size true chunk (labelledDb size) w st vmId) (a : U64) :
    ¬ PatchWrites (assetRam (labelledDb size) vmId) a := by
  rintro ⟨q, ⟨hmagic, -⟩, -⟩
  have hword : dtbWord (assetRam (labelledDb size) vmId) 0 = (treeBlob (assetRam (labelledDb size) vmId)).word 0 :=
    dtbWord_blob (o := 0) (by decide)
  have hfirst := ((treeBlob (assetRam (labelledDb size) vmId)).word_bytes 0).1
  rw [← hword, hmagic] at hfirst
  unfold treeBlob at hfirst
  rw [h.placed] at hfirst
  rcases placeAll_cases (bootAssets.map (dbImage (labelledDb size) size)) (restoreRam ((labelledDb size).vm_state vmId)).1
    (dtbAddr - ramBase + BitVec.ofNat 64 0) with ⟨i, hi, -, hbyte⟩ | ⟨-, hold⟩
  · obtain ⟨p, -, rfl⟩ := List.mem_map.1 hi
    rw [hbyte] at hfirst
    have hlabel : ∀ x : Asset, ¬ (0xd00dfeed >>> 24 : U32).setWidth 8 = labelByte x := by
      intro x
      cases x <;> decide
    exact hlabel p.1 hfirst
  · have hclear : (restoreRam ((labelledDb size).vm_state vmId)).1 = fun _ => 0 := rfl
    rw [hold, hclear] at hfirst
    exact absurd hfirst (by decide)

/-- **Where the labelled assets are intact, the sizes fit.** -/
theorem ImagesIntact.fit (h : ImagesIntact size) {chunk : FreedChunk} {w : Worker} {st : SharedVMState} {vmId : U64}
    (hboot : ColdBoot size true chunk (labelledDb size) w st vmId) : SizesFit size := by
  have hquiet := labelled_not_patchWrites hboot
  have hshows : ∀ p ∈ bootAssets, Shows (assetRam (labelledDb size) vmId) (dbImage (labelledDb size) size p) := by
    intro p hp a ha
    obtain ⟨initrdSize, hram⟩ := hboot.loaded.2
    have hat : p.2 - ramBase + BitVec.ofNat 64 (a - (p.2 - ramBase)).toNat = a := by
      rw [BitVec.ofNat_toNat, BitVec.setWidth_eq, BitVec.add_comm, BitVec.sub_add_cancel]
    have hbyte := h _ _ _ _ _ _ hboot p hp _ _ rfl rfl _ ha (hquiet _)
    rw [hat, hram, patchDtb_of_not_patchWrites (hquiet a)] at hbyte
    exact hbyte
  have hagree := hboot.shows_iff.1 hshows
  refine (hboot.fit_iff (assetData (labelledDb size).vm_assets)).2 ?_
  refine bootAssets_ascend.imp_of_mem fun {p q} hp hq hpq a hi hj => ?_
  have hlabel : labelByte p.1 = labelByte q.1 := hagree p hp q hq a hi hj
  exact hpq.2 (labelByte_injective hlabel)

end Labels

/-! ## The result -/

/-- **Every cold BOOT with assets of these sizes has them intact exactly when each asset begins past the end of those
before it.** -/
theorem imagesIntact_iff (size : Asset → U64) (h : ∃ dsm chunk db w st vmId, ColdBoot size dsm chunk db w st vmId) :
    ImagesIntact size ↔ SizesFit size := by
  constructor
  · intro hintact
    obtain ⟨dsm, chunk, db, w, st, vmId, hboot⟩ := h
    have hrange : ∀ p ∈ bootAssets, (size p.1).msb = false ∧ p.2 - ramBase + size p.1 ≤ vmRamSize := by
      intro p hp
      obtain ⟨row, lo, -, hl, hs⟩ := hboot.loaded.1 p hp
      exact ⟨hs ▸ hl.signed, hs ▸ hl.inRam⟩
    exact hintact.fit (labelled_coldBoot size hrange chunk w st vmId)
  · intro hfit dsm chunk db w st vmId hboot p hp row lo hrow hoid n hn hquiet
    obtain ⟨initrdSize, hram⟩ := hboot.loaded.2
    rw [hram, patchDtb_of_not_patchWrites hquiet]
    have hoff : p.2 - ramBase + BitVec.ofNat 64 n - (p.2 - ramBase) = BitVec.ofNat 64 n := add_sub_self _ n
    have hroom : (dbImage db size p).room (p.2 - ramBase + BitVec.ofNat 64 n) := by
      show (p.2 - ramBase + BitVec.ofNat 64 n - (p.2 - ramBase)).toNat < (size p.1).toNat
      rw [hoff, BitVec.toNat_ofNat]
      exact Nat.lt_of_le_of_lt (Nat.mod_le _ _) hn
    have hshow := hboot.shows_iff.2 (hboot.agree_of_fit hfit) p hp _ hroom
    rw [hshow]
    show assetData db.vm_assets p.1 (p.2 - ramBase + BitVec.ofNat 64 n - (p.2 - ramBase)) = _
    rw [hoff, assetData_of_row hrow hoid]

/-- Images of a page each. -/
def pageImages : Asset → U64 := fun _ => 0x1000

theorem imagesIntact_iff_pages : (∃ dsm chunk db w st vmId, ColdBoot pageImages dsm chunk db w st vmId) ∧
    ImagesIntact pageImages := by
  have hboot := labelled_coldBoot pageImages (by decide) .intact .fresh idleShared 1
  exact ⟨⟨_, _, _, _, _, _, hboot⟩, (imagesIntact_iff pageImages ⟨_, _, _, _, _, _, hboot⟩).2 (by decide)⟩

/-- Firmware that is a byte longer than the 2 MiB up to the kernel, and a kernel of one byte. -/
def longFirmware : Asset → U64
  | .firmware => 0x200001
  | _ => 1

/-- The kernel stands in the last byte of the firmware. -/
theorem not_imagesIntact_longFirmware : (∃ dsm chunk db w st vmId, ColdBoot longFirmware dsm chunk db w st vmId) ∧
    ¬ ImagesIntact longFirmware := by
  have hboot := labelled_coldBoot longFirmware (by decide) .intact .fresh idleShared 1
  refine ⟨⟨_, _, _, _, _, _, hboot⟩, fun h => ?_⟩
  exact absurd (h.fit hboot) (by decide)

end PgLinux
