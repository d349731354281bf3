import PgLinux.SaveBoot
import PgLinux.Virtqueue
/-!
# DeviceResume — the virtio devices of a resumed machine

The saved image holds the registers of both devices, and BOOT copies it back from the chunk it has freed.  Then it
initialises the devices as for a firmware entry: the network device always, the block device whenever it finds a disk
image.  Where it finds none, the block device has the disk pointer of the image, which leads to a disk only in the worker
process that had it when the machine was saved.
-/
namespace PgLinux

/-! ## The transport -/

def virtioStatusDriverOk : U32 := 4

/-- A driver has brought the device up. -/
def VirtioDev.active (d : VirtioDev) : Prop := d.status &&& virtioStatusDriverOk ≠ 0

instance (d : VirtioDev) : Decidable d.active := inferInstanceAs (Decidable (_ ≠ _))

/-- The registers on which the queue protocol depends. -/
structure SameTransport (d d' : VirtioDev) : Prop where
  device_id : d'.device_id = d.device_id
  status : d'.status = d.status
  drv_features : d'.drv_features = d.drv_features
  queues : ∀ qi, d'.queues qi = d.queues qi
  int_status : d'.int_status = d.int_status

theorem SameTransport.refl (d : VirtioDev) : SameTransport d d := ⟨rfl, rfl, rfl, fun _ => rfl, rfl⟩

theorem SameTransport.not_reset {d d' : VirtioDev} (h : SameTransport d d') (hzero : d'.status = 0) : ¬ d.active := by
  unfold VirtioDev.active
  rw [← h.status, hzero]
  decide

/-! ## A queue behind other memory -/

section Queue

variable {qi ramSize : U64} {vq : VirtioQueue}

theorem InRam.offset_lt {base a : U64} {n : Nat} (h : InRam ramSize base n)
    (hram : ramBase.toNat + ramSize.toNat < 2 ^ 64) (ha : Within base n a) : a - ramBase < ramSize := by
  obtain ⟨hlo, hhi⟩ := h
  have ha := (within_iff (by omega)).1 ha
  rw [BitVec.lt_def, BitVec.toNat_sub]
  omega

/-- RAM that is the same byte for byte. -/
theorem sameOn_inRam {ram ram' : Mem} (h : ∀ a, a < ramSize → ram' a = ram a) {base : U64} {n : Nat}
    (hin : InRam ramSize base n) (hram : ramBase.toNat + ramSize.toNat < 2 ^ 64) : SameOn (Within base n) ram ram' :=
  fun _ ha => h _ (hin.offset_lt hram ha)

/-- **A queue is in the state it was in when its transport and its RAM are.** -/
theorem QueueOk.resume (hq : vq.LaidOut ramSize) {s : QueueSystem} (h : QueueOk qi ramSize vq s) {dev : VirtioDev}
    (hdev : SameTransport s.dev dev) {mem : BlkMem} (hmem : ∀ a, a < ramSize → mem.ram a = s.mem.ram a) :
    QueueOk qi ramSize vq { s with dev := dev, mem := mem } where
  order := h.order
  used := h.used.congr hq (sameOn_inRam hmem hq.used hq.ram)
  blk := hdev.device_id.trans h.blk
  queue := (hdev.queues _).trans h.queue
  idx := (hq.availIdx_same (sameOn_inRam hmem hq.avail hq.ram)).trans h.idx
  ring := h.ring.congr (fun _ hi => hq.availHead_same (sameOn_inRam hmem hq.avail hq.ram) hi) hq.num_pos
  room := h.room
  apart := fun x hx => (h.apart x hx).congr hq (sameOn_inRam hmem hq.table hq.ram)

end Queue

/-! ## Save and BOOT -/

section Resume

/-- The worker and the machine that a save and a BOOT leave running. -/
def Resumed (chunk : FreedChunk) (be : Backend) (w : Worker) (c : Cpu) (st : SharedVMState) (db : Database) (w' : Worker)
    (vmId : U64) (w'' : Worker) (c' : Cpu) : Prop :=
  saveThenBoot chunk be w c st db w' vmId = some w'' ∧ w''.vm_cpu = some c'

variable (chunk : FreedChunk) (own : Bool) (be : Backend) (w : Worker) (c : Cpu) (st : SharedVMState) (db : Database)
  (w' : Worker) (vmId : U64)

/-- The block device comes back as it was saved: BOOT finds no disk image and leaves alone what it copies, gets past the
chunk it has freed, still finds the transport there, and a disk pointer that leads somewhere. -/
structure BlkKept : Prop where
  noImage : loadDiskFromDb db.vm_assets = none
  survives : chunk.survives (savedImage c) = true
  transport : SameTransport c.bus.virtio_blk (chunk.bytes (savedImage c)).bus.virtio_blk
  disk : (chunk.bytes (savedImage c)).bus.virtio_blk.disk_data = true → own = true

variable {chunk own be w c st db w' vmId}

theorem Resumed.inv {w'' : Worker} {c' : Cpu} (h : Resumed chunk be w c st db w' vmId w'' c') :
    chunk.survives (savedImage c) = true ∧ c' = resumedCpu chunk c w' vmId (loadDiskFromDb db.vm_assets) ∧
      ∀ a, a < vmRamSize → w''.mem.ram a = be.ram w a := by
  obtain ⟨hpass, hcpu, hram⟩ := saveThenBoot_inv h.1
  exact ⟨hpass, Option.some.inj (h.2.symm.trans hcpu), hram⟩

/-- A network device never comes back with its driver. -/
theorem Resumed.net_reset {w'' : Worker} {c' : Cpu} (h : Resumed chunk be w c st db w' vmId w'' c') :
    c'.bus.virtio_net.status = 0 := by
  rw [h.inv.2.1]
  rfl

theorem resumedCpu_blk_of_image {image : Mem × U64} :
    (resumedCpu chunk c w' vmId (some image)).bus.virtio_blk.status = 0 := rfl

/-- What comes back of the block device. -/
theorem Resumed.blkKept {w'' : Worker} {c' : Cpu} (h : Resumed chunk be w c st db w' vmId w'' c')
    (hact : c.bus.virtio_blk.active) (hsame : SameTransport c.bus.virtio_blk c'.bus.virtio_blk)
    (hdisk : c'.bus.virtio_blk.disk_data = true → own = true ∨ (loadDiskFromDb db.vm_assets).isSome = true) :
    BlkKept chunk own c db := by
  obtain ⟨hpass, rfl, -⟩ := h.inv
  cases himage : loadDiskFromDb db.vm_assets with
  | none =>
    rw [himage] at hsame hdisk
    refine ⟨himage, hpass, hsame, fun hptr => ?_⟩
    exact (hdisk hptr).resolve_right (by simp)
  | some image =>
    rw [himage] at hsame
    exact absurd hact (hsame.not_reset resumedCpu_blk_of_image)

theorem BlkKept.resumed (h : BlkKept chunk own c db) :
    ∃ w'' c', Resumed chunk be w c st db w' vmId w'' c' ∧ SameTransport c.bus.virtio_blk c'.bus.virtio_blk ∧
      (c'.bus.virtio_blk.disk_data = true → own = true) ∧ ∀ a, a < vmRamSize → w''.mem.ram a = be.ram w a := by
  obtain ⟨w'', hw'', hcpu, hram⟩ := saveThenBoot_boots chunk be w c st db w' vmId h.survives
  rw [h.noImage] at hcpu
  exact ⟨w'', _, ⟨hw'', hcpu⟩, h.transport, h.disk, hram⟩

variable [NetDevice] (chunk own be w c st db w' vmId)

/-- The transport of each device with a driver comes back, the block device with a disk pointer that is NULL or leads to
a disk of the worker, and where RAM comes back too, the next notify of a block queue leaves every head served once and in
order: those served before the save and those only published.  `own` is whether BOOT runs in the worker process that had
the machine, with its disk still allocated. -/
structure DevicesResume : Prop where
  blk : c.bus.virtio_blk.active → ∃ w'' c', Resumed chunk be w c st db w' vmId w'' c' ∧
    SameTransport c.bus.virtio_blk c'.bus.virtio_blk ∧
      (c'.bus.virtio_blk.disk_data = true → own = true ∨ (loadDiskFromDb db.vm_assets).isSome = true)
  net : c.bus.virtio_net.active → ∃ w'' c', Resumed chunk be w c st db w' vmId w'' c' ∧
    SameTransport c.bus.virtio_net c'.bus.virtio_net
  serves : c.bus.virtio_blk.active → (∀ a, a < vmRamSize → be.ram w a = w.mem.ram a) →
    ∀ qi vq published done, qi < 4 → vq.ready ≠ 0 → vq.LaidOut vmRamSize →
      QueueOk qi vmRamSize vq ⟨c.bus.virtio_blk, w.mem, published, done⟩ →
      ∃ w'' c', Resumed chunk be w c st db w' vmId w'' c' ∧
        ((QueueSystem.mk c'.bus.virtio_blk w''.mem published done).step qi vmRamSize .notify).done.map Completion.head =
          published

variable {chunk own be w c st db w' vmId}

/-- **The devices come back exactly when the network device has no driver, and the block device has none or is kept.** -/
theorem devicesResume_iff : DevicesResume chunk own be w c st db w' vmId ↔
    ¬ c.bus.virtio_net.active ∧ (c.bus.virtio_blk.active → BlkKept chunk own c db) := by
  constructor
  · intro h
    refine ⟨fun hnet => ?_, fun hact => ?_⟩
    · obtain ⟨w'', c', hres, hsame⟩ := h.net hnet
      exact hsame.not_reset hres.net_reset hnet
    · obtain ⟨w'', c', hres, hsame, hdisk⟩ := h.blk hact
      exact hres.blkKept hact hsame hdisk
  · rintro ⟨hnet, hblk⟩
    refine ⟨fun hact => ?_, fun hact => absurd hact hnet, fun hact hmap qi vq published done hqi hready hq hok => ?_⟩
    · obtain ⟨w'', c', hres, hsame, hown, -⟩ := (hblk hact).resumed
      exact ⟨w'', c', hres, hsame, fun hptr => .inl (hown hptr)⟩
    · obtain ⟨w'', c', hres, hsame, -, hram⟩ := (hblk hact).resumed
      have hresume := hok.resume hq hsame fun a ha => (hram a ha).trans (hmap a ha)
      exact ⟨w'', c', hres, (hresume.notify hq hqi hready).2⟩

end Resume

/-! ## A disk with a driver -/

section Instances

local instance resumeNet : NetDevice := NetDevice.silent

/-- A machine whose driver has set up queue 0 of the block device. -/
def drivenCpu : Cpu :=
  let c := rv64Init (fun _ => 0) vmRamSize
  { c with bus := { c.bus with virtio_blk := { oneQueueDev with status := 15 } } }

/-- A database with a disk image of one sector. -/
def diskDatabase : Database :=
  ⟨fun _ => none, fun a => if a = .disk then some ⟨some ⟨fun _ => 0, 512⟩, 512⟩ else none, fun _ _ => none⟩

/-- The block device comes back with its status register cleared, even where the freed chunk is still intact. -/
theorem not_devicesResume_driven : ¬ DevicesResume .intact true ⟨none, 0⟩ ⟨none, .null, true, 512⟩ drivenCpu
    ⟨drivenCpu, vmRamSize, [], 0, ""⟩ diskDatabase ⟨none, .null, false, 0⟩ 1 := by
  intro h
  have hact : drivenCpu.bus.virtio_blk.active := by decide
  have hdisk : loadDiskFromDb diskDatabase.vm_assets = some (_, 512) := rfl
  obtain ⟨w'', c', hres, hsame, -⟩ := h.blk hact
  have hc' := hres.inv.2.1
  rw [hdisk] at hc'
  rw [hc'] at hsame
  exact hsame.not_reset resumedCpu_blk_of_image hact

end Instances

end PgLinux
