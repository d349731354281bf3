import PgLinux.DirtyBlocks
import PgLinux.SaveBoot
/-!
# ResumeDisk — the disk a restored machine sees

A history is BOOT, STEP (a run of the machine, then the flush the worker makes once the client is unblocked),
vm_state_save at any time and HALT.  Ghosts beside it: the VM id that runs, the blocks the guest changed since their
last flush under that id, and for each saved id the disk at the save and whether its rows still stand for it.
-/
namespace PgLinux

/-- Ghost: what the last vm_state_save of an id left behind. -/
structure SavedDisk where
  disk : Mem
  size : U64
  /-- The rows of the id stood for the disk at the save, and no flush has written under the id since. -/
  intact : Prop

structure VmSystem where
  worker : Option Worker
  shared : SharedVMState
  db : Database
  /-- A STEP has run and its flush is still to come. -/
  flushing : Bool
  bootedAs : U64
  behind : U64 → Prop
  saved : U64 → Option SavedDisk

/-- `boot` is one that gets past the chunk it has freed; one that does not ends the worker, as `halt` does.  `run c'` is
the `rv64_run` of a STEP that ends in the machine `c'`. -/
inductive VmEvent where
  | boot (chunk : FreedChunk) (vmId : U64)
  | run (c' : Cpu)
  | flush
  | save (be : Backend) (vmId : U64)
  | halt

def Worker.fresh : Worker := ⟨none, .null, false, 0⟩

/-- Before the first BOOT: no worker, no saved state and no blocks. -/
def VmSystem.init (assets : VmAssets) (st : SharedVMState) : VmSystem where
  worker := none
  shared := st
  db := ⟨fun _ => none, assets, fun _ _ => none⟩
  flushing := false
  bootedAs := 0
  behind := fun _ => False
  saved := fun _ => none

/-! ## Ghosts -/

/-- Some byte of block `k` differs. -/
def BlockChanged (diskSize : U64) (disk disk' : Mem) (k : U64) : Prop :=
  ∃ a, a < diskSize ∧ a / diskBlockSize = k ∧ disk' a ≠ disk a

def flushes (dirty dirty' : Option (U64 → Bool)) (k : U64) : Prop :=
  dirty.any (fun bits => bits k) = true ∧ dirty'.any (fun bits => bits k) = false

/-! ## The disk asset -/

def diskSizeOf (assets : VmAssets) : U64 := Worker.fresh.newDiskSize (loadDiskFromDb assets)

def diskImageOf (assets : VmAssets) : Mem := ((loadDiskFromDb assets).map Prod.fst).getD fun _ => 0

theorem newDiskSize_eq {disk : Option (Mem × U64)} {w : Worker}
    (h : w.vm_disk_size = Worker.fresh.newDiskSize disk ∨ w.vm_disk_size = 0) :
    w.newDiskSize disk = Worker.fresh.newDiskSize disk := by
  have hfresh : Worker.fresh.vm_disk_size = 0 := rfl
  cases disk with
  | none => exact h.elim id id
  | some d =>
    unfold Worker.newDiskSize at *
    dsimp only at *
    split
    · rfl
    next hs =>
      rw [if_neg hs] at h
      exact h.elim id id

theorem diskSizeOf_lt (assets : VmAssets) : (diskSizeOf assets).toNat < 2 ^ 63 := by
  unfold diskSizeOf Worker.newDiskSize
  split
  next size _ =>
    split
    next h =>
      have hlt : (0 : Int) < BitVec.toInt size := BitVec.slt_iff_toInt_lt.1 h
      rw [BitVec.toInt_eq_toNat_cond] at hlt
      split at hlt <;> omega
    · decide
  · decide

theorem loadAssetFromDb_size (assets : VmAssets) (ram ram' : Mem) (ramSize loadAddr : U64) (a : Asset) :
    (loadAssetFromDb assets ram ramSize loadAddr a).2 = (loadAssetFromDb assets ram' ramSize loadAddr a).2 := by
  unfold loadAssetFromDb
  cases assets a with
  | none => rfl
  | some row =>
    dsimp only
    split
    · rfl
    · split
      · cases row.data_oid <;> rfl
      · rfl

/-- Whether the assets load does not depend on what is in RAM. -/
theorem loadBootAssets_complete (assets : VmAssets) (ram ram' : Mem) :
    (loadBootAssets assets ram).2.complete = (loadBootAssets assets ram').2.complete := by
  have hfw := loadAssetFromDb_size assets ram ram' vmRamSize firmwareAddr .firmware
  have hkern := loadAssetFromDb_size assets (loadAssetFromDb assets ram vmRamSize firmwareAddr .firmware).1
    (loadAssetFromDb assets ram' vmRamSize firmwareAddr .firmware).1 vmRamSize kernelAddr .kernel
  unfold loadBootAssets BootSizes.complete
  dsimp only
  rw [hfw, hkern]
  congr 1
  · congr 2
    exact loadAssetFromDb_size _ _ _ _ _ _
  · congr 1
    exact loadAssetFromDb_size _ _ _ _ _ _

/-! ## BOOT, as the history sees it -/

/-- A BOOT either ends in a running machine on the overlaid disk, or fails for want of an asset. -/
theorem workerHandleCmdBoot_cases (chunk : FreedChunk) (db : Database) (w : Worker) (st : SharedVMState) (vmId : U64) :
    ((∃ st' ram restored sizes, workerHandleCmdBoot true chunk db w st vmId =
      finishBoot chunk db w st' vmId ram restored (loadDiskFromDb db.vm_assets) sizes) ∧
      ((restoreRam (db.vm_state vmId)).2 = true ∨ ∃ ram, (loadBootAssets db.vm_assets ram).2.complete = true)) ∨
    ((restoreRam (db.vm_state vmId)).2 = false ∧ (∃ ram, (loadBootAssets db.vm_assets ram).2.complete = false) ∧
      (workerHandleCmdBoot true chunk db w st vmId).1.vm_cpu = w.vm_cpu ∧
      (workerHandleCmdBoot true chunk db w st vmId).1.vm_disk_size = w.vm_disk_size) := by
  unfold workerHandleCmdBoot
  rw [if_neg (by decide)]
  dsimp only
  by_cases hr : (restoreRam (db.vm_state vmId)).2 = true
  · rw [if_pos hr]
    exact .inl ⟨⟨_, _, _, _, rfl⟩, .inl hr⟩
  · rw [if_neg hr]
    by_cases ha : (loadBootAssets db.vm_assets (restoreRam (db.vm_state vmId)).1).2.complete = true
    · rw [if_pos ha]
      exact .inl ⟨⟨_, _, _, _, rfl⟩, .inr ⟨_, ha⟩⟩
    · rw [if_neg ha]
      exact .inr ⟨Bool.of_not_eq_true hr, ⟨_, Bool.of_not_eq_true ha⟩, rfl, rfl⟩

theorem finishBoot_disk (chunk : FreedChunk) {db : Database} {w : Worker} (vmId : U64)
    (hw : w.vm_disk_size = diskSizeOf db.vm_assets ∨ w.vm_disk_size = 0) (st : SharedVMState) (ram : Mem)
    (restored : Bool) (sizes : BootSizes) :
    let r := (finishBoot chunk db w st vmId ram restored (loadDiskFromDb db.vm_assets) sizes).1
    r.vm_cpu.isSome = true ∧ r.vm_disk_size = diskSizeOf db.vm_assets ∧
      ∀ a, a < diskSizeOf db.vm_assets → r.mem.disk a =
        overlayBlocks (db.vm_blocks vmId) (diskSizeOf db.vm_assets) (diskImageOf db.vm_assets) a := by
  have hsize := newDiskSize_eq hw
  refine ⟨rfl, hsize, fun a ha => ?_⟩
  unfold finishBoot diskImageOf
  rw [hsize]
  unfold diskSizeOf at ha ⊢
  cases hd : loadDiskFromDb db.vm_assets with
  | none =>
    rw [hd] at ha
    exact absurd ha (by show ¬ a < 0; exact BitVec.not_lt_zero)
  | some d => rfl

/-! ## The system's steps -/

/-- The machine the worker runs. -/
def VmSystem.machine (s : VmSystem) : Option Cpu :=
  s.worker.bind fun w => w.vm_cpu.map fun c => c.attach w.mem

def VmSystem.boot (s : VmSystem) (chunk : FreedChunk) (vmId : U64) : VmSystem :=
  let r := workerHandleCmdBoot true chunk s.db (s.worker.getD .fresh) s.shared vmId
  { s with worker := some r.1, shared := r.1.sync r.2, bootedAs := vmId, behind := fun _ => False }

def VmSystem.ran (s : VmSystem) (w : Worker) (c' : Cpu) : VmSystem :=
  let w' := { w with vm_cpu := some c'.image, mem := c'.bus.mem }
  { s with
    worker := some w'
    shared := w'.sync { s.shared with console := (s.shared.console ++ c'.bus.console).take (1024 * 1024 - 1) }
    flushing := true
    behind := fun k => s.behind k ∨ BlockChanged w.vm_disk_size w.mem.disk c'.bus.mem.disk k }

def VmSystem.flushed (s : VmSystem) (w : Worker) : VmSystem :=
  let r := workerFlushDirtyBlocks w.mem.disk w.vm_disk_size w.mem.vm_disk_dirty s.db.vm_blocks
  { s with
    worker := some { w with mem := { w.mem with vm_disk_dirty := r.1 } }
    db := { s.db with vm_blocks := r.2 }
    flushing := false
    behind := fun k => s.behind k ∧ ¬ (s.bootedAs = 1 ∧ flushes w.mem.vm_disk_dirty r.1 k)
    saved := fun id => (s.saved id).map fun sv =>
      { sv with intact := sv.intact ∧ (id = 1 → ∀ k, ¬ flushes w.mem.vm_disk_dirty r.1 k) } }

def VmSystem.save (s : VmSystem) (be : Backend) (w : Worker) (vmId : U64) : VmSystem :=
  let r := vmStateSave be w s.shared s.db vmId
  { s with
    shared := r.2
    db := r.1
    saved := setAt s.saved vmId (some ⟨w.mem.disk, w.vm_disk_size, vmId = s.bootedAs ∧ ∀ k, ¬ s.behind k⟩) }

def VmSystem.step (s : VmSystem) : VmEvent → VmSystem
  | .boot chunk vmId => s.boot chunk vmId
  | .run c' => match s.worker with
    | some w => s.ran w c'
    | none => s
  | .flush => match s.worker with
    | some w => s.flushed w
    | none => s
  | .save be vmId => match s.worker with
    | some w => s.save be w vmId
    | none => s
  | .halt => { s with worker := none }

/-! ## The invariant -/

/-- The rows of `id` over the disk asset. -/
def rowsByte (db : Database) (id a : U64) : U8 := overlayByte (db.vm_blocks id) (diskImageOf db.vm_assets) a

/-- What every history keeps: blocks that are not behind, and saved disks that are intact, are what the rows say. -/
structure SysOk (s : VmSystem) : Prop where
  sized : ∀ id, RowsSized (diskSizeOf s.db.vm_assets) (s.db.vm_blocks id)
  size : ∀ w, s.worker = some w → w.vm_disk_size = diskSizeOf s.db.vm_assets ∨ w.vm_disk_size = 0
  live : ∀ w, s.worker = some w → w.vm_cpu.isSome = true → w.vm_disk_size = diskSizeOf s.db.vm_assets ∧
    ∀ a, a < w.vm_disk_size → ¬ s.behind (a / diskBlockSize) → w.mem.disk a = rowsByte s.db s.bootedAs a
  saved : ∀ id sv, s.saved id = some sv → sv.size = diskSizeOf s.db.vm_assets ∧
    (sv.intact → ∀ a, a < sv.size → sv.disk a = rowsByte s.db id a)
  bootable : (∀ ram, (loadBootAssets s.db.vm_assets ram).2.complete = true) ∨
    (s.machine = none ∧ ∀ id, s.db.vm_state id = none)

theorem SysOk.init (assets : VmAssets) (st : SharedVMState) : SysOk (.init assets st) where
  sized := fun id k r h => by cases h
  size := fun w h => by cases h
  live := fun w h => by cases h
  saved := fun id sv h => by cases h
  bootable := .inr ⟨rfl, fun _ => rfl⟩

theorem machine_isSome {s : VmSystem} : s.machine.isSome = true ↔ ∃ w, s.worker = some w ∧ w.vm_cpu.isSome = true := by
  unfold VmSystem.machine
  cases s.worker with
  | none => simp
  | some w => simp

theorem SysOk.boot {s : VmSystem} (h : SysOk s) (chunk : FreedChunk) (vmId : U64) : SysOk (s.boot chunk vmId) := by
  have hw : (s.worker.getD .fresh).vm_disk_size = diskSizeOf s.db.vm_assets ∨
      (s.worker.getD .fresh).vm_disk_size = 0 := by
    cases hs : s.worker with
    | none => exact .inr rfl
    | some w => exact h.size w hs
  rcases workerHandleCmdBoot_cases chunk s.db (s.worker.getD .fresh) s.shared vmId with
    ⟨⟨st', ram, restored, sizes, he⟩, hb⟩ | ⟨hr, ⟨ram, ha⟩, hcpu, hsize⟩
  · obtain ⟨-, hsize, hdisk⟩ := finishBoot_disk chunk vmId hw st' ram restored sizes
    refine ⟨h.sized, fun w hw' => ?_, fun w hw' _ => ?_, h.saved, ?_⟩
    · cases hw'
      rw [he]
      exact .inl hsize
    · cases hw'
      rw [he]
      refine ⟨hsize, fun a ha _ => ?_⟩
      rw [hsize] at ha
      rw [hdisk a ha]
      exact overlayBlocks_byte (diskSizeOf_lt _) (h.sized vmId) ha _
    · refine .inl ?_
      rcases h.bootable with hall | ⟨-, hrows⟩
      · exact hall
      · rcases hb with hr | ⟨ram, ha⟩
        · rw [hrows vmId] at hr
          cases hr
        · exact fun ram' => (loadBootAssets_complete _ ram' ram).trans ha
  · rcases h.bootable with hall | ⟨hm, hrows⟩
    · rw [hall ram] at ha
      cases ha
    · have hnone : (s.worker.getD .fresh).vm_cpu = none := by
        cases hs : s.worker with
        | none => rfl
        | some w =>
          cases hc : w.vm_cpu with
          | none => exact hc
          | some c =>
            have := machine_isSome.2 ⟨w, hs, by rw [hc]; rfl⟩
            rw [hm] at this
            cases this
      refine ⟨h.sized, fun w hw' => ?_, fun w hw' hc => ?_, h.saved, .inr ⟨?_, hrows⟩⟩
      · cases hw'
        rw [hsize]
        exact hw
      · cases hw'
        rw [hcpu, hnone] at hc
        cases hc
      · show Option.map _ (workerHandleCmdBoot true chunk s.db (s.worker.getD .fresh) s.shared vmId).1.vm_cpu = none
        rw [hcpu, hnone]
        rfl

theorem SysOk.ran {s : VmSystem} (h : SysOk s) {w : Worker} (hw : s.worker = some w) (hm : w.vm_cpu.isSome = true)
    (c' : Cpu) : SysOk (s.ran w c') := by
  obtain ⟨hsize, hlive⟩ := h.live w hw hm
  refine ⟨h.sized, fun w' hw' => ?_, fun w' hw' _ => ?_, h.saved, ?_⟩
  · cases hw'
    exact .inl hsize
  · cases hw'
    refine ⟨hsize, fun a ha hb => ?_⟩
    have hsame : c'.bus.mem.disk a = w.mem.disk a := by
      by_contra hne
      exact hb (.inr ⟨a, ha, rfl, hne⟩)
    exact hsame.trans (hlive a ha fun hk => hb (.inl hk))
  · rcases h.bootable with hall | ⟨hnone, -⟩
    · exact .inl hall
    · have := machine_isSome.2 ⟨w, hw, hm⟩
      rw [hnone] at this
      cases this

theorem not_flushes_self (dirty : Option (U64 → Bool)) (k : U64) : ¬ flushes dirty dirty k := by
  rintro ⟨h1, h2⟩
  cases dirty with
  | none => cases h1
  | some bits =>
    have hset : bits k = true := h1
    have hclear : bits k = false := h2
    rw [hset] at hclear
    cases hclear

/-- A flush leaves a block's row alone, or writes its present bytes under id 1. -/
theorem flush_row (w : Worker) (rows : VmBlocks) (id k : U64) :
    let r := workerFlushDirtyBlocks w.mem.disk w.vm_disk_size w.mem.vm_disk_dirty rows
    (r.2 id k = rows id k ∧ ¬ (id = 1 ∧ flushes w.mem.vm_disk_dirty r.1 k)) ∨
      (id = 1 ∧ flushes w.mem.vm_disk_dirty r.1 k ∧ w.vm_disk_size ≠ 0 ∧
        r.2 id k = some (flushRow w.mem.disk w.vm_disk_size k)) := by
  intro r
  by_cases hid : id = 1
  · subst hid
    cases hd : w.mem.vm_disk_dirty with
    | none =>
      have hr : r = (none, rows) := by
        show workerFlushDirtyBlocks _ _ _ _ = _
        rw [hd]
        rfl
      rw [hr]
      exact .inl ⟨rfl, fun hf => by cases hf.2.1⟩
    | some bits =>
      have hr : r = workerFlushDirtyBlocks w.mem.disk w.vm_disk_size (some bits) rows := by rw [← hd]
      by_cases hz : w.vm_disk_size = 0
      · have hr : r = (some bits, rows) := by
          rw [hr]
          exact if_pos hz
        rw [hr]
        exact .inl ⟨rfl, fun hf => not_flushes_self _ k hf.2⟩
      · obtain ⟨bits', hb', hblk⟩ := workerFlushDirtyBlocks_block w.mem.disk w.vm_disk_size bits rows
        rw [hr, hb']
        rcases hblk k with ⟨hbit, hrow⟩ | ⟨hset, hclear, hrow⟩
        · refine .inl ⟨hrow, fun hf => ?_⟩
          have hset : bits k = true := hf.2.1
          have hclear : bits' k = false := hf.2.2
          rw [hbit, hset] at hclear
          cases hclear
        · exact .inr ⟨rfl, ⟨hset, hclear⟩, hz, hrow⟩
  · exact .inl ⟨workerFlushDirtyBlocks_other _ _ _ rows hid k, fun h => hid h.1⟩

theorem rowsByte_congr {db db' : Database} {id id' a : U64} (ha : db'.vm_assets = db.vm_assets)
    (h : db'.vm_blocks id' (a / diskBlockSize) = db.vm_blocks id (a / diskBlockSize)) :
    rowsByte db' id' a = rowsByte db id a := by
  unfold rowsByte overlayByte
  rw [h, ha]

theorem rowsByte_flushRow {db : Database} {id a : U64} {disk : Mem} {size : U64}
    (h : db.vm_blocks id (a / diskBlockSize) = some (flushRow disk size (a / diskBlockSize))) :
    rowsByte db id a = disk a := by
  unfold rowsByte overlayByte
  rw [h]
  exact congrArg disk (by rw [BitVec.add_comm]; exact BitVec.sub_add_cancel _ _)

theorem SysOk.flushed {s : VmSystem} (h : SysOk s) {w : Worker} (hw : s.worker = some w) : SysOk (s.flushed w) := by
  refine ⟨fun id k row hrow => ?_, fun w' hw' => ?_, fun w' hw' hm => ?_, fun id sv hsv => ?_, ?_⟩
  · rcases flush_row w s.db.vm_blocks id k with ⟨hkeep, -⟩ | ⟨-, -, hz, hnew⟩
    · exact h.sized id k row (hkeep.symm.trans hrow)
    · have hsize := (h.size w hw).resolve_right hz
      cases hnew.symm.trans hrow
      rw [hsize]
      rfl
  · cases hw'
    exact h.size w hw
  · cases hw'
    obtain ⟨hsize, hlive⟩ := h.live w hw hm
    refine ⟨hsize, fun a ha hb => ?_⟩
    rcases flush_row w s.db.vm_blocks s.bootedAs (a / diskBlockSize) with ⟨hkeep, hno⟩ | ⟨-, -, -, hnew⟩
    · have hsame : rowsByte (s.flushed w).db s.bootedAs a = rowsByte s.db s.bootedAs a := rowsByte_congr rfl hkeep
      exact (hlive a ha fun hk => hb ⟨hk, hno⟩).trans hsame.symm
    · exact (rowsByte_flushRow hnew).symm
  · obtain ⟨sv, hsv', rfl⟩ := Option.map_eq_some_iff.1 hsv
    obtain ⟨hsize, hdisk⟩ := h.saved id sv hsv'
    refine ⟨hsize, fun hi a ha => ?_⟩
    refine (hdisk hi.1 a ha).trans (Eq.symm ?_)
    rcases flush_row w s.db.vm_blocks id (a / diskBlockSize) with ⟨hkeep, -⟩ | ⟨hid, hf, -⟩
    · exact rowsByte_congr rfl hkeep
    · exact absurd hf (hi.2 hid _)
  · rcases h.bootable with hall | ⟨hnone, hrows⟩
    · exact .inl hall
    · refine .inr ⟨?_, hrows⟩
      rw [← Option.not_isSome_iff_eq_none] at hnone ⊢
      rw [machine_isSome] at hnone ⊢
      rintro ⟨w', hw', hm⟩
      cases hw'
      exact hnone ⟨w, hw, hm⟩

theorem SysOk.save {s : VmSystem} (h : SysOk s) {w : Worker} (hw : s.worker = some w) (hm : w.vm_cpu.isSome = true)
    (be : Backend) (vmId : U64) : SysOk (s.save be w vmId) := by
  obtain ⟨hsize, hlive⟩ := h.live w hw hm
  refine ⟨h.sized, h.size, h.live, fun id sv hsv => ?_, ?_⟩
  · by_cases hid : id = vmId
    · subst hid
      cases (if_pos rfl).symm.trans hsv
      refine ⟨hsize, fun hi a ha => ?_⟩
      rw [hi.1]
      exact hlive a ha (hi.2 _)
    · exact h.saved id sv ((if_neg hid).symm.trans hsv)
  · rcases h.bootable with hall | ⟨hnone, -⟩
    · exact .inl hall
    · have := machine_isSome.2 ⟨w, hw, hm⟩
      rw [hnone] at this
      cases this

theorem SysOk.halt {s : VmSystem} (h : SysOk s) : SysOk (s.step .halt) where
  sized := h.sized
  size := fun w hw => by cases hw
  live := fun w hw => by cases hw
  saved := h.saved
  bootable := h.bootable.imp id fun hb => ⟨rfl, hb.2⟩

section Histories

variable [NetDevice] [HostFp]

/-- The events the worker loop and the clients can produce: a command waits for the flush before it. -/
def VmSystem.Enabled (s : VmSystem) : VmEvent → Prop
  | .boot _ _ => s.flushing = false
  | .run c' => s.flushing = false ∧ ∃ c, s.machine = some c ∧ MachineRun c c'
  | .flush => s.flushing = true
  | .save _ _ => s.machine.isSome = true
  | .halt => s.flushing = false

def VmSystem.run (s : VmSystem) (es : List VmEvent) : VmSystem := es.foldl VmSystem.step s

def History (s : VmSystem) : List VmEvent → Prop
  | [] => True
  | e :: es => s.Enabled e ∧ History (s.step e) es

/-- The rows a BOOT of `vmId` lays over the image still stand for the disk at its last vm_state_save. -/
def RowsIntact (s : VmSystem) (vmId : U64) : Prop := ∀ sv, s.saved vmId = some sv → sv.intact

/-- A BOOT of a saved id that restores CPU and RAM runs on the disk at the save. -/
def ResumesDisk (s : VmSystem) (vmId : U64) : Prop :=
  ∀ sv, s.saved vmId = some sv → (restoreRam (s.db.vm_state vmId)).2 = true → ∀ chunk,
    ∃ w, (s.boot chunk vmId).worker = some w ∧ w.vm_disk_size = sv.size ∧ ∀ a, a < sv.size → w.mem.disk a = sv.disk a

theorem SysOk.step {s : VmSystem} (h : SysOk s) {e : VmEvent} (he : s.Enabled e) : SysOk (s.step e) := by
  cases e with
  | boot chunk vmId => exact h.boot chunk vmId
  | run c' =>
    obtain ⟨-, c, hc, -⟩ := he
    obtain ⟨w, hw, hm⟩ := machine_isSome.1 (hc ▸ rfl : s.machine.isSome = true)
    unfold VmSystem.step
    rw [hw]
    exact h.ran hw hm c'
  | flush =>
    unfold VmSystem.step
    cases hw : s.worker with
    | none => exact h
    | some w => exact h.flushed hw
  | save be vmId =>
    obtain ⟨w, hw, hm⟩ := machine_isSome.1 he
    unfold VmSystem.step
    rw [hw]
    exact h.save hw hm be vmId
  | halt => exact h.halt

theorem SysOk.run : ∀ (es : List VmEvent) (s : VmSystem), SysOk s → History s es → SysOk (s.run es)
  | [], _, h, _ => h
  | e :: es, s, h, hes => SysOk.run es (s.step e) (h.step hes.1) hes.2

/-- **A restored machine runs on the disk of its save** when nothing was behind at the save and no flush has written
under the id since, in every history from a database without saved machines. -/
theorem resumesDisk_of_rowsIntact (assets : VmAssets) (st : SharedVMState) (es : List VmEvent) (vmId : U64)
    (hes : History (.init assets st) es) (hrows : RowsIntact ((VmSystem.init assets st).run es) vmId) :
    ResumesDisk ((VmSystem.init assets st).run es) vmId := by
  have hok := SysOk.run es _ (.init assets st) hes
  generalize (VmSystem.init assets st).run es = s at hok hrows ⊢
  intro sv hsv hrestored chunk
  obtain ⟨hsize, hdisk⟩ := hok.saved vmId sv hsv
  have hw : (s.worker.getD .fresh).vm_disk_size = diskSizeOf s.db.vm_assets ∨
      (s.worker.getD .fresh).vm_disk_size = 0 := by
    cases hs : s.worker with
    | none => exact .inr rfl
    | some w => exact hok.size w hs
  obtain ⟨-, hbsize, hbdisk⟩ := finishBoot_disk chunk vmId hw { s.shared with ram_size := vmRamSize, console := [] }
    (restoreRam (s.db.vm_state vmId)).1 true .none
  refine ⟨_, rfl, ?_⟩
  rw [workerHandleCmdBoot_restored hrestored]
  refine ⟨hbsize.trans hsize.symm, fun a ha => ?_⟩
  rw [hdisk (hrows sv hsv) a ha]
  rw [hsize] at ha
  rw [hbdisk a ha]
  exact overlayBlocks_byte (diskSizeOf_lt _) (hok.sized vmId) ha _

end Histories

/-! ## A driver that writes sector 0 -/

section Driver

local instance driverNet : NetDevice := NetDevice.silent
local instance driverFp : HostFp := HostFp.zero

/-- Firmware that sets up queue 0 of the block device and notifies it. -/
def driverProgram : List U32 :=
  [0x100010B7, 0x00400113, 0x0220AC23, 0x800001B7, 0x60018213, 0x0840A023, 0x20020213, 0x0840A823, 0x10020213,
    0x0A40A023, 0x0420A223, 0x0400A823]

/-- The request, its descriptors moved out of the way of the program. -/
def driverRam : Mem := programAt driverProgram 0 (writeRequestRam.copy 0x600 writeRequestRam 0 48)

def driverAssets : VmAssets
  | .firmware => some ⟨some ⟨driverRam, 0x1000⟩, 0x1000⟩
  | .disk => some ⟨some ⟨fun _ => 0, 4096⟩, 4096⟩
  | _ => some ⟨some ⟨fun _ => 0, 0⟩, 0⟩

def driverShared : SharedVMState := ⟨rv64Init (fun _ => 0) 0, 0, [], 0, ""⟩

def bootedDriver : VmSystem := (VmSystem.init driverAssets driverShared).boot .intact 1

/-- The driver's machine after its request. -/
def driverDone : Cpu := stepTimes 12 (bootedDriver.machine.getD driverShared.cpu)

theorem driver_runs : ∃ c, bootedDriver.machine = some c ∧ MachineRun c driverDone := ⟨_, rfl, stepTimes_run 12 _⟩

def writeThenSave : List VmEvent := [.boot .intact 1, .run driverDone, .flush, .save ⟨none, 0⟩ 1, .halt]

theorem writeThenSave_history : History (.init driverAssets driverShared) writeThenSave :=
  ⟨rfl, ⟨rfl, driver_runs⟩, rfl, rfl, rfl, trivial⟩

/-- The flush leaves nothing of the driver's write behind. -/
theorem driver_flushed (k : U64) :
    ¬ ((VmSystem.init driverAssets driverShared).run [.boot .intact 1, .run driverDone, .flush]).behind k := by
  rintro ⟨h | ⟨a, ha, hk, -⟩, hflush⟩
  · exact h
  · have hz : k = 0 := by
      have ha : a.toNat < 4096 := ha
      have hbs : diskBlockSize.toNat = 4096 := rfl
      refine BitVec.eq_of_toNat_eq ?_
      rw [← hk, BitVec.toNat_udiv, hbs]
      exact Nat.div_eq_of_lt ha
    subst hz
    exact hflush ⟨rfl, by decide +kernel, by decide +kernel⟩

theorem writeThenSave_intact : RowsIntact ((VmSystem.init driverAssets driverShared).run writeThenSave) 1 := by
  rintro sv hsv
  obtain rfl : _ = sv := Option.some.inj hsv
  exact ⟨rfl, driver_flushed⟩

theorem resumesDisk_writeThenSave : ResumesDisk ((VmSystem.init driverAssets driverShared).run writeThenSave) 1 :=
  resumesDisk_of_rowsIntact driverAssets driverShared writeThenSave 1 writeThenSave_history writeThenSave_intact

def saveThenWrite : List VmEvent := [.boot .intact 1, .save ⟨none, 0⟩ 1, .run driverDone, .flush, .halt]

/-- The flush of a later STEP puts the driver's write under the saved machine. -/
theorem not_resumesDisk_saveThenWrite : History (.init driverAssets driverShared) saveThenWrite ∧
    ¬ ResumesDisk ((VmSystem.init driverAssets driverShared).run saveThenWrite) 1 := by
  refine ⟨⟨rfl, rfl, ⟨rfl, driver_runs⟩, rfl, rfl, trivial⟩, fun h => ?_⟩
  obtain ⟨w, hw, -, hdisk⟩ := h _ rfl (by decide +kernel) .intact
  cases hw
  have hbyte := hdisk 0 (by decide +kernel)
  revert hbyte
  decide +kernel

end Driver

end PgLinux
