import PgLinux.Assets
import PgLinux.Run
/-!
# Worker — the database, the background worker and vm_state_save (`rv64_pgext.c`)

`struct rv64_cpu` holds pointers to guest RAM and the disk, not their bytes: the `Cpu` of a worker, of the shared copy
and of a `vm_state` row is an image without memory, and the worker's `mem` is what its pointers lead to.
-/
namespace PgLinux

/-! ## State -/

/-- A row of `vm_state`. -/
structure VmStateRow where
  cpu_state : Option Cpu
  console : List U8
  ram_oid : Option LargeObject
  ram_size : U64
  disk_size : U64
  instret : U64
  pc : U64
  cycle : U64

structure Database where
  vm_state : U64 → Option VmStateRow
  vm_assets : VmAssets
  vm_blocks : VmBlocks

/-- What a command reads and leaves in `SharedVMState`. -/
structure SharedVMState where
  cpu : Cpu
  ram_size : U64
  console : List U8
  cmd_result : Int
  error_msg : String

/-- The statics of the worker process; `vm_disk` is whether the pointer is set. -/
structure Worker where
  vm_cpu : Option Cpu
  mem : BlkMem
  vm_disk : Bool
  vm_disk_size : U64

/-- The statics of a client backend: its mapping of guest RAM once it has one, and its own `vm_disk_size`. -/
structure Backend where
  frontend_ram : Option Mem
  vm_disk_size : U64

def BlkMem.null : BlkMem := ⟨fun _ => 0, fun _ => 0, none, [], ⟨0, 0⟩⟩

/-- The bytes of `struct rv64_cpu`. -/
def Cpu.image (c : Cpu) : Cpu := { c with bus := { c.bus with mem := .null, console := [] } }

/-- The machine an image and the memory behind its pointers make. -/
def Cpu.attach (c : Cpu) (mem : BlkMem) : Cpu := { c with bus := { c.bus with mem := mem } }

/-- `memcpy(&vm_shared_state->cpu, vm_cpu, sizeof(struct rv64_cpu))`, at the end of a command. -/
def Worker.sync (w : Worker) (st : SharedVMState) : SharedVMState :=
  match w.vm_cpu with
  | some c => { st with cpu := c.image }
  | none => st

/-! ## vm_state_save -/

/-- `ensure_frontend_ram`: a mapping is made once and kept. -/
def Backend.ram (be : Backend) (w : Worker) : Mem := be.frontend_ram.getD w.mem.ram

def vmStateSave (be : Backend) (w : Worker) (st : SharedVMState) (db : Database) (vmId : U64) :
    Database × SharedVMState :=
  let st := { st with cpu := { st.cpu with ram_size := st.ram_size } }
  let existing := (db.vm_state vmId).bind fun row => row.ram_oid
  let row : VmStateRow :=
    { cpu_state := some st.cpu
      console := st.console
      ram_oid := some (loWriteBuf (be.ram w) st.cpu.ram_size existing)
      ram_size := st.cpu.ram_size
      disk_size := be.vm_disk_size
      instret := st.cpu.instret
      pc := st.cpu.pc
      cycle := st.cpu.cycle }
  ({ db with vm_state := setAt db.vm_state vmId (some row) }, st)

/-! ## BOOT -/

def vmRamSize : U64 := 2048 * 1024 * 1024

/-- Guest RAM after the restore was tried, and `state_restored`. -/
def restoreRam (row : Option VmStateRow) : Mem × Bool :=
  let r := loReadBuf (row.bind fun row => row.ram_oid) (fun _ => 0) 0 vmRamSize
  (r.1, r.2 == some vmRamSize)

/-- `fw_sz`, `kern_sz`, `dtb_sz` and `init_sz`. -/
structure BootSizes where
  fw : Option U64
  kern : Option U64
  dtb : Option U64
  init : Option U64

def BootSizes.none : BootSizes := ⟨.none, .none, .none, .none⟩

def loadBootAssets (assets : VmAssets) (ram : Mem) : Mem × BootSizes :=
  let fw := loadAssetFromDb assets ram vmRamSize firmwareAddr .firmware
  let kern := loadAssetFromDb assets fw.1 vmRamSize kernelAddr .kernel
  let dtb := loadAssetFromDb assets kern.1 vmRamSize dtbAddr .dtb
  let init := loadAssetFromDb assets dtb.1 vmRamSize initrdAddr .initrd
  (init.1, ⟨fw.2, kern.2, dtb.2, init.2⟩)

def BootSizes.complete (s : BootSizes) : Bool := s.fw.isSome && s.kern.isSome && s.dtb.isSome && s.init.isSome

def sizeText : Option U64 → String
  | some n => toString n.toNat
  | none => "-1"

/-- What BOOT meets of the buffer `cpu_state`, where `c` was saved.  The buffer is allocated after `SPI_connect`, in the
context that `SPI_finish` deletes; after that BOOT copies from it and frees it once more. -/
structure FreedChunk where
  /-- BOOT gets past both. -/
  survives : Cpu → Bool
  /-- What the copy finds. -/
  bytes : Cpu → Cpu

/-- The chunk as it was before it was freed. -/
def FreedChunk.intact : FreedChunk := ⟨fun _ => true, id⟩

/-- A machine at reset. -/
def coldCpu : Cpu := (rv64Init (fun _ => 0) vmRamSize).image

/-- The new `vm_cpu`: what is left of the saved one, without its JIT and TLB, or a machine at reset. -/
def bootCpu (chunk : FreedChunk) (restored : Bool) (row : Option VmStateRow) : Cpu :=
  match restored, row.bind fun row => row.cpu_state with
  | true, some c => { (chunk.bytes c).image with jit := none, tlb := .zero }
  | _, _ => coldCpu

def virtioBlkIrq : U32 := 8
def virtioNetIrq : U32 := 9

/-- `if (disk_sz > 0) vm_disk_size = disk_sz`. -/
def Worker.newDiskSize (w : Worker) (disk : Option (Mem × U64)) : U64 :=
  match disk with
  | some (_, size) => if (0 : U64).slt size then size else w.vm_disk_size
  | none => w.vm_disk_size

/-- Devices and boot registers, on the restored path and on the ordinary one. -/
def bootDevices (disk : Bool) (diskSize vmId : U64) (c : Cpu) : Cpu :=
  { c with
    id := vmId
    bus := { c.bus with
      uart := { c.bus.uart with tx_callback := true }
      virtio_blk := if disk then { virtioBlkInit virtioBlkIrq diskSize with mark_dirty := true } else c.bus.virtio_blk
      virtio_net := virtioNetInit virtioNetIrq vmRamSize
      virtio_devs := true }
    x := setAt (setAt c.x 10 0) 11 0x82000000 }

/-- The end of BOOT, from "Initialize CPU" on. -/
def finishBoot (chunk : FreedChunk) (db : Database) (w : Worker) (st : SharedVMState) (vmId : U64) (ram : Mem) (restored : Bool)
    (disk : Option (Mem × U64)) (sizes : BootSizes) : Worker × SharedVMState :=
  let diskSize := w.newDiskSize disk
  let mem : BlkMem :=
    match disk with
    | some (image, _) => ⟨ram, overlayBlocks (db.vm_blocks vmId) diskSize image, some fun _ => false, [], w.mem.net⟩
    | none => { w.mem with ram := ram }
  ({ vm_cpu := some (bootDevices disk.isSome diskSize vmId (bootCpu chunk restored (db.vm_state vmId)))
     mem := mem
     vm_disk := disk.isSome
     vm_disk_size := diskSize },
   { st with
     cmd_result := 0
     error_msg := "VM initialized from DB: fw=" ++ sizeText sizes.fw ++ " kern=" ++ sizeText sizes.kern ++ " dtb=" ++
       sizeText sizes.dtb ++ " initrd=" ++ sizeText sizes.init ++ " disk=" ++ toString diskSize.toNat })

/-- `worker_handle_cmd_boot`; `dsm` is whether the RAM segment could be created.  A BOOT that does not get past the freed
chunk ends the worker, and is not followed here. -/
def workerHandleCmdBoot (dsm : Bool) (chunk : FreedChunk) (db : Database) (w : Worker) (st : SharedVMState) (vmId : U64) :
    Worker × SharedVMState :=
  if !dsm then
    (w, { st with cmd_result := -1, error_msg := "Failed to allocate DSM for vm_ram in vm_boot" })
  else
    let st := { st with ram_size := vmRamSize, console := [] }
    let r := restoreRam (db.vm_state vmId)
    let disk := loadDiskFromDb db.vm_assets
    if r.2 then finishBoot chunk db w st vmId r.1 true disk .none
    else
      let a := loadBootAssets db.vm_assets r.1
      if a.2.complete then finishBoot chunk db w st vmId (patchDtb a.1 (a.2.init.getD 0)) false disk a.2
      else
        ({ w with
           mem := { w.mem with ram := a.1, disk := (disk.map Prod.fst).getD w.mem.disk }
           vm_disk := disk.isSome },
         { st with cmd_result := -1, error_msg := "Failed to load required boot assets from vm_assets" })

end PgLinux
