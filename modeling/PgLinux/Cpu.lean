import PgLinux.Bus
import PgLinux.Sljit
/-!
# Cpu — machine state, CSRs, traps and interrupts (`rv64_cpu.h`, `rv64_cpu.c`)

The CSRs stand in a record of their own; the profiling counters, which nothing reads, are left out.  A C array is a
function of its index, and a ring slot is the remainder the source computes on an `int`.
-/
namespace PgLinux

/-! ## State -/

structure Csr where
  mstatus : U64
  misa : U64
  medeleg : U64
  mideleg : U64
  mie : U64
  mtvec : U64
  mcounteren : U64
  mscratch : U64
  mepc : U64
  mcause : U64
  mtval : U64
  mip : U64
  satp : U64
  sscratch : U64
  sepc : U64
  scause : U64
  stval : U64
  stvec : U64
  scounteren : U64
  stimecmp : U64
  menvcfg : U64
  pmpcfg : BitVec 2 → U64
  pmpaddr : BitVec 4 → U64

structure Reservation where
  valid : Bool
  addr : U64

/-- `struct tlb_entry`; `host_base` is the offset from the start of guest RAM, `none` for NULL. -/
structure TlbEntry where
  vpn : U64
  ppn : U64
  host_base : Option U64
  perm : U8
  level : U8
  dirty : Bool
  valid : Bool

def TlbEntry.zero : TlbEntry := ⟨0, 0, none, 0, 0, false, false⟩

abbrev Tlb := BitVec 12 → TlbEntry

def Tlb.zero : Tlb := fun _ => .zero

structure StoreLog where
  pc : U64
  addr : U64
  value : U64
  size : Nat
  instret : U64

structure BreakLog where
  pc : U64
  x : BitVec 5 → U64
  f : BitVec 5 → U64
  sp : U64
  instret : U64

structure TrapLog where
  cause : U64
  tval : U64
  pc : U64
  instret : U64
  priv : U8
  a7 : U64
  a0 : U64
  a1 : U64
  a2 : U64
  ret_a0 : U64
  ret_pc : U64

structure InstLog where
  pc : U64
  insn : U32
  instret : U64

/-- The `dbg` record. -/
structure Dbg where
  watch_addr : U64
  watch_size : U32
  watch_active : Bool
  break_pc : U64
  break_active : Bool
  break_halt : Bool
  debug_halt : Bool
  store_log : U32 → StoreLog
  store_log_count : U32
  break_log : U32 → BreakLog
  break_log_count : U32
  trap_log : U32 → TrapLog
  trap_log_count : U32
  trap_log_last_slot : U32
  inst_log : U32 → InstLog
  inst_log_idx : U32

def Dbg.zero : Dbg :=
  ⟨0, 0, false, 0, false, false, false, fun _ => ⟨0, 0, 0, 0, 0⟩, 0, fun _ => ⟨0, fun _ => 0, fun _ => 0, 0, 0⟩, 0,
    fun _ => ⟨0, 0, 0, 0, 0, 0, 0, 0, 0, 0, 0⟩, 0, 0, fun _ => ⟨0, 0, 0⟩, 0⟩

/-- Ghost: an instruction of a block, as its compilation fetched it. -/
structure JitSrc where
  va : U64
  word : U32

/-- `struct jit_block`; `src` is a ghost. -/
structure JitBlock where
  guest_pc : U64
  host_code : Option (List SljitOp)
  insn_count : Nat
  valid : Bool
  src : List JitSrc

def JitBlock.zero : JitBlock := ⟨0, none, 0, false, []⟩

structure JitState where
  cache : BitVec 16 → JitBlock
  enabled : Bool
  rt_max_block_insns : U32
  disabled_ops : BitVec 128

structure Cpu where
  x : BitVec 5 → U64
  pc : U64
  f : BitVec 5 → U64
  fcsr : U32
  priv : U8
  csr : Csr
  cycle : U64
  instret : U64
  reservation : Reservation
  tlb : Tlb
  bus : Bus
  id : U64
  ram_size : U64
  jit : Option JitState
  pending_irq_check : Bool
  halted : Bool
  error : Bool
  dbg : Dbg

def privU : U8 := 0
def privS : U8 := 1
def privM : U8 := 3

/-- `WR(rd, val)`. -/
def Cpu.wr (c : Cpu) (rd : BitVec 5) (val : U64) : Cpu := { c with x := setAt (setAt c.x rd val) 0 0 }

theorem wr_x (c : Cpu) (rd r : BitVec 5) (v : U64) :
    (c.wr rd v).x r = if r = 0 then 0 else if r = rd then v else c.x r := rfl

theorem wr_zero {c : Cpu} (h0 : c.x 0 = 0) (v : U64) : c.wr 0 v = c := by
  have hx : (c.wr 0 v).x = c.x := by
    funext r
    rw [wr_x]
    split
    next hr => rw [hr, h0]
    next => rfl
  show { c with x := (c.wr 0 v).x } = c
  rw [hx]

theorem wr_self (c : Cpu) {rd : BitVec 5} (h : rd ≠ 0) (v : U64) : (c.wr rd v).x rd = v := by
  rw [wr_x, if_neg h, if_pos rfl]

/-! ## Flushes -/

/-- `jit_flush`, when there is a JIT. -/
def jitFlush (c : Cpu) : Cpu := { c with jit := c.jit.map fun j => { j with cache := fun _ => .zero } }

def rv64TlbFlush (c : Cpu) : Cpu := jitFlush { c with tlb := .zero }

/-! ## CSR access -/

def mstatusSie : U64 := 1 <<< 1
def mstatusMie : U64 := 1 <<< 3
def mstatusSpie : U64 := 1 <<< 5
def mstatusMpie : U64 := 1 <<< 7
def mstatusSpp : U64 := 1 <<< 8
def mstatusMpp : U64 := 3 <<< 11
def mstatusFs : U64 := 3 <<< 13
def mstatusSum : U64 := 1 <<< 18
def mstatusMxr : U64 := 1 <<< 19
def sstatusMask : U64 :=
  mstatusSie ||| mstatusSpie ||| mstatusSpp ||| mstatusFs ||| mstatusSum ||| mstatusMxr ||| 3 <<< 32 ||| 1 <<< 63
def mipStip : U64 := 1 <<< 5

def csrMstatus : BitVec 12 := 0x300
def csrSstatus : BitVec 12 := 0x100

/-- `csr_read`; `none` is the return value -1. -/
def csrRead (c : Cpu) (csr : BitVec 12) : Option U64 :=
  match csr.toNat with
  | 0x300 => some c.csr.mstatus
  | 0x301 => some c.csr.misa
  | 0x302 => some c.csr.medeleg
  | 0x303 => some c.csr.mideleg
  | 0x304 => some c.csr.mie
  | 0x305 => some c.csr.mtvec
  | 0x306 => some c.csr.mcounteren
  | 0x340 => some c.csr.mscratch
  | 0x341 => some c.csr.mepc
  | 0x342 => some c.csr.mcause
  | 0x343 => some c.csr.mtval
  | 0x344 => some c.csr.mip
  | 0xF14 | 0xF11 | 0xF12 | 0xF13 => some 0
  | 0x30A => some c.csr.menvcfg
  | 0x015 => some (3 <<< 30 ||| ((c.instret * 6364136223846793005 + 1442695040888963407) &&& 0xFFFF))
  | 0x3A0 => some (c.csr.pmpcfg 0)
  | 0x3A2 => some (c.csr.pmpcfg 1)
  | 0x3B0 | 0x3B1 | 0x3B2 | 0x3B3 | 0x3B4 | 0x3B5 | 0x3B6 | 0x3B7 | 0x3B8 | 0x3B9 | 0x3BA | 0x3BB | 0x3BC | 0x3BD
  | 0x3BE | 0x3BF => some (c.csr.pmpaddr ((csr - 0x3B0).setWidth 4))
  | 0x100 => some (c.csr.mstatus &&& sstatusMask)
  | 0x104 => some (c.csr.mie &&& c.csr.mideleg)
  | 0x105 => some c.csr.stvec
  | 0x106 => some c.csr.scounteren
  | 0x140 => some c.csr.sscratch
  | 0x141 => some c.csr.sepc
  | 0x142 => some c.csr.scause
  | 0x143 => some c.csr.stval
  | 0x144 => some (c.csr.mip &&& c.csr.mideleg)
  | 0x180 => some c.csr.satp
  | 0x14D => some c.csr.stimecmp
  | 0x001 => some (c.fcsr.setWidth 64 &&& 0x1F)
  | 0x002 => some ((c.fcsr >>> 5).setWidth 64 &&& 0x7)
  | 0x003 => some (c.fcsr.setWidth 64 &&& 0xFF)
  | 0xC00 | 0xC02 => some c.instret
  | 0xC01 => some c.bus.clint.mtime
  | _ => none

/-- `(old & ~mask) | (val & mask)`. -/
def maskedWrite (old mask val : U64) : U64 := (old &&& ~~~mask) ||| (val &&& mask)

def satpMode (satp : U64) : U64 := satp >>> 60
def satpModeBare : U64 := 0
def satpModeSv39 : U64 := 8

/-- The `CSR_SATP` case: an unsupported mode is stored as 0, and the TLB is flushed. -/
def writeSatp (c : Cpu) (val : U64) : Cpu :=
  rv64TlbFlush { c with csr := { c.csr with
    satp := if satpMode val = satpModeBare ∨ satpMode val = satpModeSv39 then val else 0 } }

/-- The cases of `csr_write` on the CSR record. -/
def csrUpdate (r : Csr) (csr : BitVec 12) (val : U64) : Csr :=
  match csr.toNat with
  | 0x300 => { r with mstatus := val }
  | 0x302 => { r with medeleg := val }
  | 0x303 => { r with mideleg := val }
  | 0x304 => { r with mie := val }
  | 0x305 => { r with mtvec := val }
  | 0x306 => { r with mcounteren := val }
  | 0x340 => { r with mscratch := val }
  | 0x341 => { r with mepc := val }
  | 0x342 => { r with mcause := val }
  | 0x343 => { r with mtval := val }
  | 0x344 => { r with mip := val }
  | 0x3A0 => { r with pmpcfg := setAt r.pmpcfg 0 val }
  | 0x3A2 => { r with pmpcfg := setAt r.pmpcfg 1 val }
  | 0x3B0 | 0x3B1 | 0x3B2 | 0x3B3 | 0x3B4 | 0x3B5 | 0x3B6 | 0x3B7 | 0x3B8 | 0x3B9 | 0x3BA | 0x3BB | 0x3BC | 0x3BD
  | 0x3BE | 0x3BF => { r with pmpaddr := setAt r.pmpaddr ((csr - 0x3B0).setWidth 4) val }
  | 0x100 => { r with mstatus := maskedWrite r.mstatus sstatusMask val }
  | 0x104 => { r with mie := maskedWrite r.mie r.mideleg val }
  | 0x105 => { r with stvec := val }
  | 0x106 => { r with scounteren := val }
  | 0x140 => { r with sscratch := val }
  | 0x141 => { r with sepc := val }
  | 0x142 => { r with scause := val }
  | 0x143 => { r with stval := val }
  | 0x144 => { r with mip := maskedWrite r.mip r.mideleg val }
  | 0x14D => { r with stimecmp := val, mip := r.mip &&& ~~~mipStip }
  | 0x30A => { r with menvcfg := val }
  | _ => r

/-- `csr_write`; its return value is not looked at. -/
def csrWrite (c : Cpu) (csr : BitVec 12) (val : U64) : Cpu :=
  if csr = 0x180 then writeSatp c val
  else if csr = 0x001 then { c with fcsr := (c.fcsr &&& ~~~(0x1F : U32)) ||| (val.setWidth 32 &&& 0x1F) }
  else if csr = 0x002 then { c with fcsr := (c.fcsr &&& ~~~(0xE0 : U32)) ||| (val.setWidth 32 &&& 0x7) <<< 5 }
  else if csr = 0x003 then { c with fcsr := val.setWidth 32 &&& 0xFF }
  else { c with csr := csrUpdate c.csr csr val }

/-! ## Traps -/

def excIllegalInsn : U64 := 2
def excBreakpoint : U64 := 3
def excEcallU : U64 := 8
def excEcallS : U64 := 9
def excEcallM : U64 := 11
def excInsnPageFault : U64 := 12
def excLoadPageFault : U64 := 13
def excStorePageFault : U64 := 15

/-- The trap log entry of an exception; interrupts and supervisor calls are not logged. -/
def Cpu.logTrap (c : Cpu) (cause tval : U64) : Cpu :=
  if !cause.msb && cause != excEcallS then
    let slot := c.dbg.trap_log_count.srem 4096
    { c with dbg := { c.dbg with
      trap_log := setAt c.dbg.trap_log slot
        ⟨cause, tval, c.pc, c.instret, c.priv, c.x 17, c.x 10, c.x 11, c.x 12, 0, 0⟩
      trap_log_last_slot := slot
      trap_log_count := c.dbg.trap_log_count + 1 } }
  else c

/-- Whether a trap is delegated to S-mode. -/
def trapToS (c : Cpu) (cause : U64) : Bool :=
  if c.priv = privM then false
  else if cause.msb then (c.csr.mideleg >>> (cause &&& 0x7FFFFFFFFFFFFFFF)).getLsbD 0
  else (c.csr.medeleg >>> (cause &&& 0x7FFFFFFFFFFFFFFF)).getLsbD 0

/-- The handler address: `tvec` vectored on an interrupt. -/
def trapVector (tvec cause : U64) : U64 :=
  if tvec &&& 3 = 1 ∧ cause.msb then (tvec &&& ~~~3) + (cause &&& 0x7FFFFFFFFFFFFFFF) * 4 else tvec &&& ~~~3

def bit (v : U64) (i : Nat) : U64 := (v >>> i) &&& 1

def trap (c : Cpu) (cause tval : U64) : Cpu :=
  let c := c.logTrap cause tval
  if trapToS c cause then
    let mstatus := (c.csr.mstatus &&& ~~~mstatusSpie) ||| bit c.csr.mstatus 1 <<< 5
    let mstatus := mstatus &&& ~~~mstatusSie
    let mstatus := (mstatus &&& ~~~mstatusSpp) ||| c.priv.setWidth 64 <<< 8
    { c with
      csr := { c.csr with sepc := c.pc, scause := cause, stval := tval, mstatus := mstatus }
      priv := privS
      pc := trapVector c.csr.stvec cause }
  else
    let mstatus := (c.csr.mstatus &&& ~~~mstatusMpie) ||| bit c.csr.mstatus 3 <<< 7
    let mstatus := mstatus &&& ~~~mstatusMie
    let mstatus := (mstatus &&& ~~~mstatusMpp) ||| c.priv.setWidth 64 <<< 11
    { c with
      csr := { c.csr with mepc := c.pc, mcause := cause, mtval := tval, mstatus := mstatus }
      priv := privM
      pc := trapVector c.csr.mtvec cause }

/-! ## Interrupts -/

def mipMtip : U64 := 1 <<< 7
def mipSeip : U64 := 1 <<< 9

/-- The mask, cause and M-level flag of each interrupt, by priority. -/
def irqs : List (U64 × U64 × Bool) :=
  [(1 <<< 11, 11 ||| 1 <<< 63, true), (1 <<< 3, 3 ||| 1 <<< 63, true), (1 <<< 7, 7 ||| 1 <<< 63, true),
   (1 <<< 9, 9 ||| 1 <<< 63, false), (1 <<< 1, 1 ||| 1 <<< 63, false), (1 <<< 5, 5 ||| 1 <<< 63, false)]

/-- Whether a pending interrupt is taken. -/
def irqTaken (c : Cpu) (mask : U64) (toM : Bool) : Bool :=
  (toM && c.csr.mideleg &&& mask == 0 && (decide (c.priv < privM) || (c.priv == privM && c.csr.mstatus.getLsbD 3))) ||
  (c.csr.mideleg &&& mask != 0 && (decide (c.priv < privS) || (c.priv == privS && c.csr.mstatus.getLsbD 1)))

/-- Timer and external interrupt lines, brought up to date. -/
def updateMip (c : Cpu) : Cpu :=
  let mip := if c.bus.clint.mtimecmp ≤ c.bus.clint.mtime then c.csr.mip ||| mipMtip else c.csr.mip &&& ~~~mipMtip
  let mip := if c.csr.stimecmp ≤ c.bus.clint.mtime then mip ||| mipStip else mip
  let plic := c.bus.plic
  let plicPending := plic.pending 0 &&& plic.enable true 0 != 0 || plic.pending 1 &&& plic.enable true 1 != 0
  { c with csr := { c.csr with mip := if plicPending then mip ||| mipSeip else mip &&& ~~~mipSeip } }

variable [NetDevice]

/-- `virtio_net_poll`, every 100000 cycles. -/
def pollNet (c : Cpu) : Cpu :=
  if c.cycle % 100000 = 0 then
    let r := netPoll c.bus.virtio_net c.bus.mem
    { c with bus := { c.bus with virtio_net := r.2, mem := r.1 } }
  else c

/-- The interrupt to take, if any. -/
def selectIrq (c : Cpu) : Option U64 :=
  (irqs.find? fun irq => c.csr.mip &&& c.csr.mie &&& irq.1 != 0 && irqTaken c irq.1 irq.2.2).map fun irq => irq.2.1

/-- `check_interrupts`: the new state, and whether an interrupt was taken. -/
def checkInterrupts (c : Cpu) : Cpu × Bool :=
  let c := pollNet (updateMip c)
  match selectIrq c with
  | some cause => ({ trap c cause 0 with halted := false }, true)
  | none => (c, false)

/-! ## Initialization -/

def Bus.zero (ram : Mem) : Bus :=
  ⟨⟨ram, fun _ => 0, none, [], ⟨0, 0⟩⟩, .zero, ⟨0, 0⟩, .zero, .zero, .zero, false, []⟩

def Csr.zero : Csr :=
  ⟨0, 0, 0, 0, 0, 0, 0, 0, 0, 0, 0, 0, 0, 0, 0, 0, 0, 0, 0, 0, 0, fun _ => 0, fun _ => 0⟩

def JitState.init : JitState := ⟨fun _ => .zero, true, 0, 0⟩

/-- `rv64_init`. -/
def rv64Init (ram : Mem) (ramSize : U64) : Cpu where
  x := fun _ => 0
  pc := ramBase
  f := fun _ => 0
  fcsr := 0
  priv := privM
  csr := { Csr.zero with
    misa := 2 <<< 62 ||| 1 <<< 0 ||| 1 <<< 2 ||| 1 <<< 3 ||| 1 <<< 5 ||| 1 <<< 8 ||| 1 <<< 12 ||| 1 <<< 18 ||| 1 <<< 20
    mstatus := 2 <<< 32 ||| 2 <<< 34 ||| 1 <<< 13
    stimecmp := 0xFFFFFFFFFFFFFFFF }
  cycle := 0
  instret := 0
  reservation := ⟨false, 0⟩
  tlb := .zero
  bus := { Bus.zero ram with clint := ⟨0xFFFFFFFFFFFFFFFF, 0⟩ }
  id := 0
  ram_size := ramSize
  jit := some .init
  pending_irq_check := false
  halted := false
  error := false
  dbg := .zero

end PgLinux
