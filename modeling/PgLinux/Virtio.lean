import PgLinux.Lib.Bytes
/-!
# Virtio — the MMIO transport and the block device (`rv64_virtio.c`)

Guest RAM and the disk image are `Mem`s indexed by the difference to their C pointer (`ram`, `disk_data`), so an access
that leaves its buffer still names a byte: the bytes at and past `ram_size` (or `disk_size`) are process memory.

A request walks its descriptor chain in `virtioBlkDesc`, one call an iteration of the C `for`.  `log` is a ghost: the
data segments the walk met, in order, from which nothing is computed.
-/
namespace PgLinux

abbrev U8 := BitVec 8
abbrev U16 := BitVec 16
abbrev U32 := BitVec 32
abbrev U64 := BitVec 64

def ramBase : U64 := 0x80000000

/-! ## Guest memory helpers -/

/-- The bound check of `guest_read` and `guest_write`, in 64-bit arithmetic. -/
def guestInBounds (ramSize addr len : U64) : Bool :=
  decide (ramBase ≤ addr) && decide (addr + len ≤ ramBase + ramSize)

/-- `guest_read`: `len` guest bytes to `buf + off`; `false` is the return value -1. -/
def guestRead (ram : Mem) (ramSize addr : U64) (buf : Mem) (off len : U64) : Mem × Bool :=
  if guestInBounds ramSize addr len then (buf.copy off ram (addr - ramBase) len.toNat, true) else (buf, false)

/-- `guest_write`: `len` bytes at `buf + off` into guest RAM; `false` is the return value -1. -/
def guestWrite (ram : Mem) (ramSize addr : U64) (buf : Mem) (off len : U64) : Mem × Bool :=
  if guestInBounds ramSize addr len then (ram.copy (addr - ramBase) buf off len.toNat, true) else (ram, false)

def guestRead16 (ram : Mem) (ramSize addr : U64) (v : U16) : U16 × Bool :=
  let r := guestRead ram ramSize addr (fun i => byteOf (v.setWidth 64) i.toNat) 0 2
  ((r.1.read 0 2).setWidth 16, r.2)

def guestWrite16 (ram : Mem) (ramSize addr : U64) (v : U16) : Mem × Bool :=
  guestWrite ram ramSize addr (fun i => byteOf (v.setWidth 64) i.toNat) 0 2

/-! ## The device -/

structure VirtioQueue where
  num : U32
  ready : U32
  desc_addr : U64
  avail_addr : U64
  used_addr : U64
  last_avail : U16

def VirtioQueue.zero : VirtioQueue := ⟨0, 0, 0, 0, 0, 0⟩

/-- `struct virtio_mmio_dev`.  `queues` is indexed by the C `int`, in range or not; a pointer is whether it is set. -/
structure VirtioDev where
  device_id : U32
  irq : U32
  status : U32
  int_status : U32
  dev_features_sel : U32
  drv_features_sel : U32
  dev_features : U64
  drv_features : U64
  queue_sel : U32
  config_gen : U32
  queues : U32 → VirtioQueue
  disk_data : Bool
  disk_size : U64
  slirp : Bool
  ram : Bool
  ram_size : U64
  rx_ring_buffers : U32 → Mem
  rx_ring_sizes : U32 → U64
  rx_head : U32
  rx_tail : U32
  mark_dirty : Bool

/-- `memset(dev, 0, sizeof(*dev))`. -/
def VirtioDev.zero : VirtioDev :=
  { device_id := 0, irq := 0, status := 0, int_status := 0, dev_features_sel := 0, drv_features_sel := 0,
    dev_features := 0, drv_features := 0, queue_sel := 0, config_gen := 0, queues := fun _ => .zero,
    disk_data := false, disk_size := 0, slirp := false, ram := false, ram_size := 0,
    rx_ring_buffers := fun _ _ => 0, rx_ring_sizes := fun _ => 0, rx_head := 0, rx_tail := 0, mark_dirty := false }

def virtioDevNet : U32 := 1
def virtioDevBlk : U32 := 2
def virtioFVersion1 : U64 := 1 <<< 32
def virtioBlkFBlkSize : U64 := 1 <<< 6

def virtioBlkInit (irq : U32) (diskSize : U64) : VirtioDev :=
  { VirtioDev.zero with
    device_id := virtioDevBlk, irq := irq, disk_data := true, disk_size := diskSize,
    dev_features := virtioFVersion1 ||| virtioBlkFBlkSize }

/-- `virtio_net_init`, with the network backend compiled in. -/
def virtioNetInit (irq : U32) (ramSize : U64) : VirtioDev :=
  { VirtioDev.zero with device_id := virtioDevNet, irq := irq, ram := true, ram_size := ramSize, slirp := true }

/-! ## The block queue -/

def vringDescFNext : U16 := 1
def vringDescFWrite : U16 := 2
def virtioBlkTIn : U32 := 0
def virtioBlkTOut : U32 := 1
def virtioBlkTFlush : U32 := 4
def virtioBlkSOk : U8 := 0
def virtioBlkSIoerr : U8 := 1
def virtioBlkSUnsupp : U8 := 2

/-- `struct vring_desc`. -/
structure VringDesc where
  addr : U64
  len : U32
  flags : U16
  next : U16

def VringDesc.ofBytes (b : Mem) : VringDesc :=
  ⟨b.read 0 8, (b.read 8 4).setWidth 32, (b.read 12 2).setWidth 16, (b.read 14 2).setWidth 16⟩

def VringDesc.hasNext (d : VringDesc) : Bool := d.flags &&& vringDescFNext != 0
def VringDesc.isWrite (d : VringDesc) : Bool := d.flags &&& vringDescFWrite != 0

/-- `struct virtio_blk_req_hdr`, without the reserved word. -/
structure BlkReqHdr where
  type : U32
  sector : U64

def BlkReqHdr.ofBytes (b : Mem) : BlkReqHdr := ⟨(b.read 0 4).setWidth 32, b.read 8 8⟩

/-- Ghost: a data segment as the walk met it. -/
structure Segment where
  type : U32
  sector : U64
  addr : U64
  len : U32
deriving DecidableEq

def Segment.diskOffset (g : Segment) : U64 := g.sector * 512

/-- The device lets a segment through when its 64-bit end is on the disk and its guest buffer is in RAM. -/
def Segment.passes (diskSize ramSize : U64) (g : Segment) : Bool :=
  decide (g.diskOffset + g.len.setWidth 64 ≤ diskSize) && guestInBounds ramSize g.addr (g.len.setWidth 64)

/-- Ghost: how often the network device was called, and how many of these calls never returned. -/
structure NetCalls where
  made : Nat
  hung : Nat

/-- What the devices act on besides their registers: guest RAM, the disk image, the extension's dirty bitmap (`none` when
it was not allocated), the ghost log of the block device and the calls of the network device. -/
structure BlkMem where
  ram : Mem
  disk : Mem
  vm_disk_dirty : Option (U64 → Bool)
  log : List Segment
  net : NetCalls

def diskBlockSize : U64 := 4096

/-- The bits `blkStart .. blkEnd - 1` set. -/
def dirtySet (bits : U64 → Bool) (blkStart blkEnd : U64) : U64 → Bool := fun b =>
  bits b || (decide (blkStart ≤ b) && decide (b < blkEnd))

/-- `vm_dirty_callback`. -/
def vmDirtyCallback (dirty : Option (U64 → Bool)) (byteOffset length : U64) : Option (U64 → Bool) :=
  match dirty with
  | none => none
  | some bits =>
    if length = 0 then some bits
    else some (dirtySet bits (byteOffset / diskBlockSize) ((byteOffset + length + diskBlockSize - 1) / diskBlockSize))

/-- The locals of one request's walk. -/
structure BlkWalk where
  mem : BlkMem
  hdr : BlkReqHdr
  status : U8
  phase : Nat
  idx : U16
  total_bytes : U32

variable (dev : VirtioDev) (vq : VirtioQueue) (ramSize : U64)

/-- `guest_read` of descriptor `idx`, over the local `desc`. -/
def readDesc (ram : Mem) (idx : U16) (desc : Mem) : Mem × Bool :=
  guestRead ram ramSize (vq.desc_addr + idx.setWidth 64 * 16) desc 0 16

/-- `hdr.sector += desc.len / 512`. -/
def BlkWalk.advance (w : BlkWalk) (d : VringDesc) : BlkWalk :=
  { w with hdr := { w.hdr with sector := w.hdr.sector + (d.len / 512).setWidth 64 } }

/-- The `VIRTIO_BLK_T_IN` branch of a data descriptor, before the sector advances. -/
def virtioBlkIn (w : BlkWalk) (d : VringDesc) : BlkWalk :=
  let diskOffset := w.hdr.sector * 512
  if dev.disk_size < diskOffset + d.len.setWidth 64 then { w with status := virtioBlkSIoerr }
  else
    let r := guestWrite w.mem.ram ramSize d.addr w.mem.disk diskOffset (d.len.setWidth 64)
    if r.2 then { w with mem := { w.mem with ram := r.1 }, total_bytes := w.total_bytes + d.len }
    else { w with status := virtioBlkSIoerr }

/-- The `VIRTIO_BLK_T_OUT` branch of a data descriptor, before the sector advances. -/
def virtioBlkOut (w : BlkWalk) (d : VringDesc) : BlkWalk :=
  let diskOffset := w.hdr.sector * 512
  if dev.disk_size < diskOffset + d.len.setWidth 64 then { w with status := virtioBlkSIoerr }
  else
    let r := guestRead w.mem.ram ramSize d.addr w.mem.disk diskOffset (d.len.setWidth 64)
    if r.2 then
      { w with
        mem := { w.mem with
          disk := r.1
          vm_disk_dirty := if dev.mark_dirty
            then vmDirtyCallback w.mem.vm_disk_dirty diskOffset (d.len.setWidth 64) else w.mem.vm_disk_dirty }
        total_bytes := w.total_bytes + d.len }
    else { w with status := virtioBlkSIoerr }

/-- The data segment a descriptor is, where the walk has come to. -/
def BlkWalk.segment (w : BlkWalk) (d : VringDesc) : Segment := ⟨w.hdr.type, w.hdr.sector, d.addr, d.len⟩

def BlkWalk.note (w : BlkWalk) (d : VringDesc) : BlkWalk :=
  { w with mem := { w.mem with log := w.mem.log ++ [w.segment d] } }

/-- A data descriptor. -/
def virtioBlkData (w : BlkWalk) (d : VringDesc) : BlkWalk :=
  if w.hdr.type = virtioBlkTIn then (virtioBlkIn dev ramSize (w.note d) d).advance d
  else if w.hdr.type = virtioBlkTOut then (virtioBlkOut dev ramSize (w.note d) d).advance d
  else if w.hdr.type = virtioBlkTFlush then { w with status := virtioBlkSOk }
  else { w with status := virtioBlkSUnsupp }

/-- One iteration of the chain walk; `false` leaves the loop. -/
def virtioBlkDesc (w : BlkWalk) : BlkWalk × Bool :=
  let r := readDesc vq ramSize w.mem.ram w.idx (fun _ => 0)
  if !r.2 then ({ w with status := virtioBlkSIoerr }, false)
  else
    let d := VringDesc.ofBytes r.1
    if w.phase = 0 then
      if d.len < 16 then ({ w with status := virtioBlkSIoerr }, false)
      else
        let h := guestRead w.mem.ram ramSize d.addr (fun _ => 0) 0 16
        if !h.2 then ({ w with status := virtioBlkSIoerr }, false)
        else ({ w with hdr := .ofBytes h.1, phase := 1, idx := if d.hasNext then d.next else w.idx }, d.hasNext)
    else if !d.hasNext || (d.isWrite && decide (d.len = 1)) then
      ({ w with phase := 2, idx := if d.hasNext then d.next else w.idx }, d.hasNext)
    else ({ virtioBlkData dev ramSize w d with idx := if d.hasNext then d.next else w.idx }, d.hasNext)

/-- The chain walk: at most `vq->num` iterations. -/
def virtioBlkWalk : Nat → BlkWalk → BlkWalk
  | 0, w => w
  | n + 1, w => if (virtioBlkDesc dev vq ramSize w).2 then virtioBlkWalk n (virtioBlkDesc dev vq ramSize w).1
      else (virtioBlkDesc dev vq ramSize w).1

def BlkWalk.start (mem : BlkMem) (descHead : U16) : BlkWalk := ⟨mem, ⟨0, 0⟩, virtioBlkSOk, 0, descHead, 0⟩

/-- The request that starts at descriptor `descHead`, walked. -/
def virtioBlkRequest (mem : BlkMem) (descHead : U16) : BlkWalk :=
  virtioBlkWalk dev vq ramSize vq.num.toNat (.start mem descHead)

/-- The second walk, to the last descriptor of the chain: the local `desc` it ends with. -/
def lastDesc (ram : Mem) : Nat → U16 → Mem → Mem
  | 0, _, desc => desc
  | n + 1, idx, desc =>
    let desc' := (readDesc vq ramSize ram idx desc).1
    if (VringDesc.ofBytes desc').hasNext then lastDesc ram n (VringDesc.ofBytes desc').next desc' else desc'

/-- The status byte, written to the last descriptor's buffer. -/
def writeStatus (w : BlkWalk) (descHead : U16) : Mem :=
  if 1 ≤ w.phase then
    (guestWrite w.mem.ram ramSize
      (VringDesc.ofBytes (lastDesc vq ramSize w.mem.ram vq.num.toNat descHead (fun _ => 0))).addr (fun _ => w.status) 0 1).1
  else w.mem.ram

/-- The used-ring element of a finished request, and the new used index. -/
def addUsed (ram : Mem) (descHead : U16) (totalBytes : U32) : Mem :=
  let usedIdx := (guestRead16 ram ramSize (vq.used_addr + 2) 0).1
  let usedRingIdx : U16 := (usedIdx.setWidth 32 % vq.num).setWidth 16
  let elem : Mem := fun i =>
    if i < 4 then byteOf (descHead.setWidth 64) i.toNat else byteOf (totalBytes.setWidth 64) (i - 4).toNat
  let ram := (guestWrite ram ramSize (vq.used_addr + 4 + usedRingIdx.setWidth 64 * 8) elem 0 8).1
  (guestWrite16 ram ramSize (vq.used_addr + 2) (usedIdx + 1)).1

/-- The `while` of `virtio_blk_process_queue`: it runs until `last_avail` has caught up with `availIdx`. -/
def virtioBlkLoop : Nat → BlkMem → VirtioQueue → BlkMem × VirtioQueue
  | 0, mem, vq => (mem, vq)
  | n + 1, mem, vq =>
    let ringIdx : U16 := (vq.last_avail.setWidth 32 % vq.num).setWidth 16
    let head := guestRead16 mem.ram ramSize (vq.avail_addr + 4 + ringIdx.setWidth 64 * 2) 0
    if !head.2 then (mem, vq)
    else
      let w := virtioBlkRequest dev vq ramSize mem head.1
      let mem' := { w.mem with ram := addUsed vq ramSize (writeStatus vq ramSize w head.1) head.1 w.total_bytes }
      virtioBlkLoop n mem' { vq with last_avail := vq.last_avail + 1 }

def virtioIntUsedRing : U32 := 1

def setQueue (queues : U32 → VirtioQueue) (i : U32) (vq : VirtioQueue) : U32 → VirtioQueue := fun j =>
  if j = i then vq else queues j

/-- `virtio_blk_process_queue` on queue `qi`. -/
def virtioBlkProcessQueue (qi : U32) (mem : BlkMem) : BlkMem × VirtioDev :=
  let vq := dev.queues qi
  if vq.ready = 0 ∨ vq.desc_addr = 0 then (mem, dev)
  else
    let avail := guestRead16 mem.ram ramSize (vq.avail_addr + 2) 0
    if !avail.2 then (mem, dev)
    else
      let r := virtioBlkLoop dev ramSize (avail.1 - vq.last_avail).toNat mem vq
      let dev' := { dev with queues := setQueue dev.queues qi r.2 }
      (r.1, if r.2.last_avail = vq.last_avail then dev'
        else { dev' with int_status := dev.int_status ||| virtioIntUsedRing })

/-! ## MMIO registers -/

/-- `virtio_net_process_queue` and `virtio_net_poll`, which hand packets to and from the host's network stack.  The calls
are numbered, since the host has something else to say each time, and one that never returns is `none`. -/
class NetDevice where
  processQueue : Nat → VirtioDev → U32 → Mem → U64 → Option (VirtioDev × Mem)
  poll : Nat → VirtioDev → Mem → Option (VirtioDev × Mem)

/-- A network device that moves no packets. -/
abbrev NetDevice.silent : NetDevice := ⟨fun _ d _ ram _ => some (d, ram), fun _ d ram => some (d, ram)⟩

/-- A call of the network device.  One that never returns has done nothing yet, and is counted. -/
def netCall (mem : BlkMem) (call : Nat → Option (VirtioDev × Mem)) : BlkMem × VirtioDev :=
  match call mem.net.made with
  | some r => ({ mem with ram := r.2, net := { mem.net with made := mem.net.made + 1 } }, r.1)
  | none => ({ mem with net := ⟨mem.net.made + 1, mem.net.hung + 1⟩ }, dev)

def netNotify [NetDevice] (qid : U32) (mem : BlkMem) : BlkMem × VirtioDev :=
  netCall dev mem fun k => NetDevice.processQueue k dev qid mem.ram ramSize

def netPoll [NetDevice] (mem : BlkMem) : BlkMem × VirtioDev := netCall dev mem fun k => NetDevice.poll k dev mem.ram

/-- What every answer has, and a device that has done nothing yet. -/
theorem netCall_device {P : VirtioDev → Prop} {mem : BlkMem} {call : Nat → Option (VirtioDev × Mem)} (hdev : P dev)
    (hcall : ∀ k r, call k = some r → P r.1) : P (netCall dev mem call).2 := by
  unfold netCall
  split
  next r hr => exact hcall _ r hr
  next => exact hdev

def virtioMmioConfig : U64 := 0x100

/-- The 24 bytes of the block device's config space. -/
def blkConfigBytes : Mem :=
  Mem.write (Mem.write (fun _ => 0) 0 8 (dev.disk_size / 512)) 20 4 512

def virtioMmioLoad (offset : U64) (size : U64) : U64 :=
  if virtioMmioConfig ≤ offset then
    let cfgOff := offset - virtioMmioConfig
    if dev.device_id = virtioDevBlk ∧ cfgOff + size ≤ 24 then (blkConfigBytes dev).read cfgOff size.toNat else 0
  else if offset = 0x000 then 0x74726976
  else if offset = 0x004 then 2
  else if offset = 0x008 then dev.device_id.setWidth 64
  else if offset = 0x00C then 0x554D4551
  else if offset = 0x010 then
    if dev.dev_features_sel = 0 then dev.dev_features &&& 0xFFFFFFFF
    else if dev.dev_features_sel = 1 then dev.dev_features >>> 32
    else 0
  else if offset = 0x034 then 256
  else if offset = 0x044 then if dev.queue_sel.slt 4 then (dev.queues dev.queue_sel).ready.setWidth 64 else 0
  else if offset = 0x060 then dev.int_status.setWidth 64
  else if offset = 0x070 then dev.status.setWidth 64
  else if offset = 0x0FC then dev.config_gen.setWidth 64
  else 0

def setLow (a val : U64) : U64 := (a &&& 0xFFFFFFFF00000000) ||| (val &&& 0xFFFFFFFF)
def setHigh (a val : U64) : U64 := (a &&& 0xFFFFFFFF) ||| (val &&& 0xFFFFFFFF) <<< 32

/-- A write to a register of the selected queue; `int qi = dev->queue_sel` is compared signed. -/
def updQueue (f : VirtioQueue → VirtioQueue) : VirtioDev :=
  if dev.queue_sel.slt 4 then
    { dev with queues := setQueue dev.queues dev.queue_sel (f (dev.queues dev.queue_sel)) }
  else dev

/-- Driver reset: the whole structure is cleared, then identity, disk and features are put back. -/
def virtioReset : VirtioDev :=
  { VirtioDev.zero with
    device_id := dev.device_id, irq := dev.irq, disk_data := dev.disk_data, disk_size := dev.disk_size,
    dev_features := dev.dev_features }

/-- The register writes that act on the device alone: every case of the `switch` but the notify. -/
def virtioRegStore (offset val : U64) : VirtioDev :=
  if offset = 0x014 then { dev with dev_features_sel := val.setWidth 32 }
  else if offset = 0x020 then
    if dev.drv_features_sel = 0 then { dev with drv_features := setLow dev.drv_features val }
    else if dev.drv_features_sel = 1 then { dev with drv_features := setHigh dev.drv_features val }
    else dev
  else if offset = 0x024 then { dev with drv_features_sel := val.setWidth 32 }
  else if offset = 0x030 then { dev with queue_sel := val.setWidth 32 }
  else if offset = 0x038 then updQueue dev fun q => { q with num := val.setWidth 32 }
  else if offset = 0x044 then updQueue dev fun q => { q with ready := val.setWidth 32 }
  else if offset = 0x064 then { dev with int_status := dev.int_status &&& ~~~(val.setWidth 32) }
  else if offset = 0x070 then if val = 0 then virtioReset dev else { dev with status := val.setWidth 32 }
  else if offset = 0x080 then updQueue dev fun q => { q with desc_addr := setLow q.desc_addr val }
  else if offset = 0x084 then updQueue dev fun q => { q with desc_addr := setHigh q.desc_addr val }
  else if offset = 0x090 then updQueue dev fun q => { q with avail_addr := setLow q.avail_addr val }
  else if offset = 0x094 then updQueue dev fun q => { q with avail_addr := setHigh q.avail_addr val }
  else if offset = 0x0A0 then updQueue dev fun q => { q with used_addr := setLow q.used_addr val }
  else if offset = 0x0A4 then updQueue dev fun q => { q with used_addr := setHigh q.used_addr val }
  else dev

/-- `VIRTIO_MMIO_QUEUE_NOTIFY`. -/
def virtioNotify [NetDevice] (val : U64) (mem : BlkMem) : BlkMem × VirtioDev :=
  if val < 4 ∧ (dev.queues (val.setWidth 32)).ready ≠ 0 then
    if dev.device_id = virtioDevBlk then virtioBlkProcessQueue dev ramSize (val.setWidth 32) mem
    else if dev.device_id = virtioDevNet then netNotify dev ramSize (val.setWidth 32) mem
    else (mem, dev)
  else (mem, dev)

def virtioMmioStore [NetDevice] (offset val : U64) (mem : BlkMem) : BlkMem × VirtioDev :=
  if offset = 0x050 then virtioNotify dev ramSize val mem else (mem, virtioRegStore dev offset val)

end PgLinux
