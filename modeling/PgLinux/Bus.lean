import PgLinux.Virtio
/-!
# Bus — UART, CLINT, PLIC and the physical address map (`rv64_bus.c`)

`Bus` holds everything a physical access can reach: the three devices, the two virtio devices and the memory they act
on.  `size` is 1, 2, 4 or 8 at every call, so the `default: return -1` of the source is not reached and a bus access
always succeeds.  Guest RAM is mapped (`get_guest_ram_ptr` is not NULL) from boot on.
-/
namespace PgLinux

/-! ## UART 16550 -/

/-- `struct rv64_uart`, without the registers nothing reads (`thr`, `iir`, `lsr`). -/
structure Uart where
  rbr : U8
  ier : U8
  lcr : U8
  mcr : U8
  msr : U8
  scr : U8
  dll : U8
  dlm : U8
  rx_ready : Bool
  thre_pending : Bool
  tx_callback : Bool
  rx_buf : U8 → U8
  rx_head : U8
  rx_tail : U8

def Uart.zero : Uart := ⟨0, 0, 0, 0, 0, 0, 0, 0, false, false, false, fun _ => 0, 0, 0⟩

def Uart.dlab (u : Uart) : Bool := u.lcr.getLsbD 7

def uartLoad (u : Uart) (offset : U64) : U64 × Uart :=
  if offset = 0 then
    if u.dlab then (u.dll.setWidth 64, u)
    else
      let u := if u.rx_head ≠ u.rx_tail then { u with rbr := u.rx_buf u.rx_tail, rx_tail := u.rx_tail + 1 } else u
      let u := { u with rx_ready := u.rx_head != u.rx_tail }
      (u.rbr.setWidth 64, u)
  else if offset = 1 then ((if u.dlab then u.dlm else u.ier).setWidth 64, u)
  else if offset = 2 then
    if u.rx_ready && u.ier.getLsbD 0 then (0x04, u)
    else if u.ier.getLsbD 1 then (0x02, { u with thre_pending := false })
    else (0x01, u)
  else if offset = 3 then (u.lcr.setWidth 64, u)
  else if offset = 4 then (u.mcr.setWidth 64, u)
  else if offset = 5 then ((if u.rx_ready then 0x01 else 0) ||| 0x60, u)
  else if offset = 6 then (u.msr.setWidth 64, u)
  else if offset = 7 then (u.scr.setWidth 64, u)
  else (0, u)

/-- A store, and the characters it transmits. -/
def uartStore (u : Uart) (offset val : U64) : Uart × List U8 :=
  if offset = 0 then
    if u.dlab then ({ u with dll := val.setWidth 8 }, [])
    else (if u.ier.getLsbD 1 then { u with thre_pending := true } else u,
      if u.tx_callback then [val.setWidth 8] else [])
  else if offset = 1 then
    if u.dlab then ({ u with dlm := val.setWidth 8 }, [])
    else ({ u with ier := val.setWidth 8 &&& 0x0F, thre_pending := val.getLsbD 1 }, [])
  else if offset = 3 then ({ u with lcr := val.setWidth 8 }, [])
  else if offset = 4 then ({ u with mcr := val.setWidth 8 &&& 0x1F }, [])
  else if offset = 7 then ({ u with scr := val.setWidth 8 }, [])
  else (u, [])

/-! ## CLINT -/

structure Clint where
  mtimecmp : U64
  mtime : U64

def clintMtimecmp : U64 := 0x4000
def clintMtime : U64 := 0xBFF8

def clintLoad (c : Clint) (offset : U64) : U64 :=
  if offset = clintMtimecmp then c.mtimecmp &&& 0xFFFFFFFF
  else if offset = clintMtimecmp + 4 then c.mtimecmp >>> 32
  else if offset = clintMtime then c.mtime &&& 0xFFFFFFFF
  else if offset = clintMtime + 4 then c.mtime >>> 32
  else 0

def clintStore (c : Clint) (offset val : U64) (size : Nat) : Clint :=
  if offset = clintMtimecmp then { c with mtimecmp := if size = 8 then val else setLow c.mtimecmp val }
  else if offset = clintMtimecmp + 4 then { c with mtimecmp := setHigh c.mtimecmp val }
  else if offset = clintMtime then { c with mtime := if size = 8 then val else setLow c.mtime val }
  else if offset = clintMtime + 4 then { c with mtime := setHigh c.mtime val }
  else c

/-! ## PLIC -/

/-- `struct rv64_plic`: one hart, context `false` for M and `true` for S. -/
structure Plic where
  priority : U32 → U32
  pending : U32 → U32
  enable : Bool → U32 → U32
  threshold : Bool → U32
  claim : Bool → U32

def Plic.zero : Plic := ⟨fun _ => 0, fun _ => 0, fun _ _ => 0, fun _ => 0, fun _ => 0⟩

def setAt {α β : Type} [DecidableEq α] (f : α → β) (i : α) (v : β) : α → β := fun j => if j = i then v else f j

theorem setAt_self {α β : Type} [DecidableEq α] (f : α → β) (i : α) (v : β) : setAt f i v i = v := if_pos rfl

theorem setAt_ne {α β : Type} [DecidableEq α] (f : α → β) {i j : α} (v : β) (h : j ≠ i) : setAt f i v j = f j := if_neg h

theorem setAt_setAt {α β : Type} [DecidableEq α] (f : α → β) (i : α) (v w : β) : setAt (setAt f i v) i w = setAt f i w := by
  funext j
  by_cases hj : j = i <;> simp [setAt, hj]

theorem setAt_same {α β : Type} [DecidableEq α] {f : α → β} {i : α} {v : β} (h : f i = v) : setAt f i v = f := by
  funext j
  by_cases hj : j = i <;> simp [setAt, hj, h]

/-- The claim loop from source `i`, with `n` sources to go. -/
def plicClaim (p : Plic) (ctx : Bool) : Nat → U32 → U64 × Plic
  | 0, _ => (0, p)
  | n + 1, i =>
    let word := i / 32
    let bit : U32 := (1 : U32) <<< (i % 32)
    if p.pending word &&& p.enable ctx word &&& bit ≠ 0 then
      (i.setWidth 64,
        { p with pending := setAt p.pending word (p.pending word &&& ~~~bit), claim := setAt p.claim ctx i })
    else plicClaim p ctx n (i + 1)

def plicLoad (p : Plic) (offset : U64) : U64 × Plic :=
  if offset < 0x1000 then
    let src : U32 := (offset / 4).setWidth 32
    (if src < 64 then (p.priority src).setWidth 64 else 0, p)
  else if offset < 0x1080 then
    let idx : U32 := ((offset - 0x1000) / 4).setWidth 32
    (if idx < 2 then (p.pending idx).setWidth 64 else 0, p)
  else if 0x2000 ≤ offset ∧ offset < 0x2100 then
    let ctx := decide (0x2080 ≤ offset)
    let idx : U32 := ((offset - if ctx then 0x2080 else 0x2000) / 4).setWidth 32
    (if idx < 2 then (p.enable ctx idx).setWidth 64 else 0, p)
  else if 0x200000 ≤ offset ∧ offset < 0x202000 then
    let ctx := decide (0x201000 ≤ offset)
    let off := offset - if ctx then 0x201000 else 0x200000
    if off = 0 then ((p.threshold ctx).setWidth 64, p)
    else if off = 4 then plicClaim p ctx 63 1
    else (0, p)
  else (0, p)

def plicStore (p : Plic) (offset val : U64) : Plic :=
  if offset < 0x1000 then
    let src : U32 := (offset / 4).setWidth 32
    if src < 64 then { p with priority := setAt p.priority src (val.setWidth 32 &&& 7) } else p
  else if 0x2000 ≤ offset ∧ offset < 0x2100 then
    let ctx := decide (0x2080 ≤ offset)
    let idx : U32 := ((offset - if ctx then 0x2080 else 0x2000) / 4).setWidth 32
    if idx < 2 then { p with enable := setAt p.enable ctx (setAt (p.enable ctx) idx (val.setWidth 32)) } else p
  else if 0x200000 ≤ offset ∧ offset < 0x202000 then
    let ctx := decide (0x201000 ≤ offset)
    let off := offset - if ctx then 0x201000 else 0x200000
    if off = 0 then { p with threshold := setAt p.threshold ctx (val.setWidth 32 &&& 7) }
    else if off = 4 then { p with claim := setAt p.claim ctx 0 }
    else p
  else p

/-- `plic.pending[irq / 32] |= 1U << (irq % 32)`. -/
def Plic.raise (p : Plic) (irq : U32) : Plic :=
  { p with pending := setAt p.pending (irq / 32) (p.pending (irq / 32) ||| (1 : U32) <<< (irq % 32)) }

/-! ## Main bus load/store -/

/-- What physical accesses reach.  `console` is what the transmit callback was given. -/
structure Bus where
  mem : BlkMem
  uart : Uart
  clint : Clint
  plic : Plic
  virtio_blk : VirtioDev
  virtio_net : VirtioDev
  virtio_devs : Bool
  console : List U8

def uart0Base : U64 := 0x10000000
def uart0Size : U64 := 0x1000
def uart0Irq : U32 := 10
def clintBase : U64 := 0x02000000
def clintSize : U64 := 0x10000
def plicBase : U64 := 0x0C000000
def plicSize : U64 := 0x04000000
def virtioMmioBase : U64 := 0x10001000
def virtioMmioSize : U64 := 0x1000

def inRange (addr base size : U64) : Bool := decide (base ≤ addr) && decide (addr < base + size)

/-- `addr >= RAM_BASE && addr < RAM_BASE + cpu->ram_size`. -/
def inRam (ramSize addr : U64) : Bool := inRange addr ramBase ramSize

/-- The device reads of `bus_load`. -/
def mmioLoad (b : Bus) (addr : U64) (size : Nat) : U64 × Bus :=
  if inRange addr uart0Base uart0Size then
    let r := uartLoad b.uart (addr - uart0Base)
    (r.1, { b with uart := r.2 })
  else if inRange addr clintBase clintSize then (clintLoad b.clint (addr - clintBase), b)
  else if inRange addr plicBase plicSize then
    let r := plicLoad b.plic (addr - plicBase)
    (r.1, { b with plic := r.2 })
  else if inRange addr virtioMmioBase virtioMmioSize ∧ b.virtio_devs then
    (virtioMmioLoad b.virtio_blk (addr - virtioMmioBase) (BitVec.ofNat 64 size), b)
  else if inRange addr (virtioMmioBase + virtioMmioSize) virtioMmioSize ∧ b.virtio_devs then
    (virtioMmioLoad b.virtio_net (addr - (virtioMmioBase + virtioMmioSize)) (BitVec.ofNat 64 size), b)
  else (0, b)

def busLoad (ramSize : U64) (b : Bus) (addr : U64) (size : Nat) : U64 × Bus :=
  if inRam ramSize addr then (b.mem.ram.read (addr - ramBase) size, b) else mmioLoad b addr size

variable [NetDevice]

/-- The device writes of `bus_store`. -/
def mmioStore (ramSize : U64) (b : Bus) (addr : U64) (size : Nat) (val : U64) : Bus :=
  if inRange addr uart0Base uart0Size then
    let r := uartStore b.uart (addr - uart0Base) val
    let b := { b with uart := r.1, console := b.console ++ r.2 }
    if b.uart.thre_pending || (b.uart.rx_ready && b.uart.ier.getLsbD 0) then { b with plic := b.plic.raise uart0Irq }
    else b
  else if inRange addr clintBase clintSize then { b with clint := clintStore b.clint (addr - clintBase) val size }
  else if inRange addr plicBase plicSize then { b with plic := plicStore b.plic (addr - plicBase) val }
  else if inRange addr virtioMmioBase virtioMmioSize ∧ b.virtio_devs then
    let r := virtioMmioStore b.virtio_blk ramSize (addr - virtioMmioBase) val b.mem
    { b with mem := r.1, virtio_blk := r.2, plic := if r.2.int_status ≠ 0 then b.plic.raise r.2.irq else b.plic }
  else if inRange addr (virtioMmioBase + virtioMmioSize) virtioMmioSize ∧ b.virtio_devs then
    let r := virtioMmioStore b.virtio_net ramSize (addr - (virtioMmioBase + virtioMmioSize)) val b.mem
    { b with mem := r.1, virtio_net := r.2, plic := if r.2.int_status ≠ 0 then b.plic.raise r.2.irq else b.plic }
  else b

def busStore (ramSize : U64) (b : Bus) (addr : U64) (size : Nat) (val : U64) : Bus :=
  if inRam ramSize addr then { b with mem := { b.mem with ram := b.mem.ram.write (addr - ramBase) size val } }
  else mmioStore ramSize b addr size val

/-- `rv64_uart_rx`. -/
def uartRx (b : Bus) (ch : U8) : Bus :=
  let u := b.uart
  let u := if u.rx_head + 1 ≠ u.rx_tail
    then { u with rx_buf := setAt u.rx_buf u.rx_head ch, rx_head := u.rx_head + 1, rx_ready := true } else u
  { b with uart := u, plic := b.plic.raise uart0Irq }

end PgLinux
