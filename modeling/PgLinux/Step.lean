import PgLinux.Fpu
/-!
# Step — one instruction of the interpreter (`rv64_step`)

`Exec` is the body of `rv64_step`: an early `return 0` after a trap is an error of the monad, which keeps the state.
Each opcode of the `switch` is a definition that answers the next pc.
-/
namespace PgLinux

/-- A part of `rv64_step`; the error is the early return. -/
abbrev Exec := EStateM Unit Cpu

/-- `{ trap(cpu, cause, tval); return 0; }`. -/
def trapM {α : Type} (cause tval : U64) : Exec α := do
  modify fun c => trap c cause tval
  throw ()

/-- `exc = ...; if (exc) { trap(cpu, exc, tval); return 0; }`. -/
def orTrap {α : Type} (m : Access α) (tval : U64) : Exec α := fun c =>
  match m c with
  | .ok v c => .ok v c
  | .error exc c => .error () (trap c exc tval)

def wrM (rd : BitVec 5) (val : U64) : Exec Unit := modify fun c => c.wr rd val

def illegal {α : Type} (insn : U32) : Exec α := trapM excIllegalInsn (insn.setWidth 64)

def boolWord (b : Bool) : U64 := if b then 1 else 0

/-! ## Arithmetic -/

/-- Signed division and remainder of C; the quotient truncates. -/
def sdiv64 (a b : U64) : U64 := a.sdiv b
def srem64 (a b : U64) : U64 := a.srem b

/-- The M extension, by funct3. -/
def mulDiv (f3 : BitVec 3) (a b : U64) : U64 :=
  match f3.toNat with
  | 0 => a * b
  | 1 => ((a.signExtend 128 * b.signExtend 128) >>> 64).setWidth 64
  | 2 => ((a.signExtend 128 * b.setWidth 128) >>> 64).setWidth 64
  | 3 => ((a.setWidth 128 * b.setWidth 128) >>> 64).setWidth 64
  | 4 => if b ≠ 0 then sdiv64 a b else ~~~0
  | 5 => if b ≠ 0 then a / b else ~~~0
  | 6 => if b ≠ 0 then srem64 a b else a
  | _ => if b ≠ 0 then a % b else a

/-- Opcode 0x33. -/
def aluOp (f7 : BitVec 7) (f3 : BitVec 3) (a b : U64) : U64 :=
  if f7 = 0x01 then mulDiv f3 a b
  else
    match f3.toNat with
    | 0 => if f7 = 0x20 then a - b else a + b
    | 1 => a <<< (b &&& 0x3F)
    | 2 => boolWord (a.slt b)
    | 3 => boolWord (decide (a < b))
    | 4 => a ^^^ b
    | 5 => if f7 = 0x20 then a.sshiftRight (b &&& 0x3F).toNat else a >>> (b &&& 0x3F)
    | 6 => a ||| b
    | _ => a &&& b

/-- Opcode 0x13. -/
def aluOpImm (insn : U32) (src : U64) : U64 :=
  let shamt : BitVec 6 := insn.extractLsb' 20 6
  match (funct3 insn).toNat with
  | 0 => src + immI insn
  | 1 => src <<< shamt
  | 2 => boolWord (src.slt (immI insn))
  | 3 => boolWord (decide (src < immI insn))
  | 4 => src ^^^ immI insn
  | 5 => if funct7 insn >>> 1 ≠ 0 then src.sshiftRight shamt.toNat else src >>> shamt
  | 6 => src ||| immI insn
  | _ => src &&& immI insn

/-- Opcode 0x1B; `none` is an illegal instruction. -/
def aluOpImm32 (insn : U32) (src : U32) : Option U32 :=
  let shamt : BitVec 5 := insn.extractLsb' 20 5
  match (funct3 insn).toNat with
  | 0 => some (src + (immI insn).setWidth 32)
  | 1 => some (src <<< shamt)
  | 5 => some (if funct7 insn = 0x20 then src.sshiftRight shamt.toNat else src >>> shamt)
  | _ => none

def mulDiv32 (f3 : BitVec 3) (a b : U32) : Option U32 :=
  match f3.toNat with
  | 0 => some (a * b)
  | 4 => some (if b ≠ 0 then a.sdiv b else ~~~0)
  | 5 => some (if b ≠ 0 then a / b else ~~~0)
  | 6 => some (if b ≠ 0 then a.srem b else a)
  | 7 => some (if b ≠ 0 then a % b else a)
  | _ => none

/-- Opcode 0x3B. -/
def aluOp32 (f7 : BitVec 7) (f3 : BitVec 3) (a b : U32) : Option U32 :=
  if f7 = 0x01 then mulDiv32 f3 a b
  else
    match f3.toNat with
    | 0 => some (if f7 = 0x20 then a - b else a + b)
    | 1 => some (a <<< (b &&& 0x1F))
    | 5 => some (if f7 = 0x20 then a.sshiftRight (b &&& 0x1F).toNat else a >>> (b &&& 0x1F))
    | _ => none

/-- A result of 32 bits, sign-extended into rd, or the illegal instruction trap. -/
def wr32 (insn : U32) (r : Option U32) : Exec Unit :=
  match r with
  | some v => wrM (rd insn) (v.signExtend 64)
  | none => illegal insn

/-- Whether a branch is taken; `none` is an illegal instruction. -/
def branchTaken (f3 : BitVec 3) (a b : U64) : Option Bool :=
  match f3.toNat with
  | 0 => some (a == b)
  | 1 => some (a != b)
  | 4 => some (a.slt b)
  | 5 => some (!a.slt b)
  | 6 => some (decide (a < b))
  | 7 => some (decide (b ≤ a))
  | _ => none

/-! ## Memory -/

/-- Size of a load and the extension of its value. -/
def loadKind (f3 : BitVec 3) : Option (Nat × (U64 → U64)) :=
  match f3.toNat with
  | 0 => some (1, fun v => (v.setWidth 8).signExtend 64)
  | 1 => some (2, fun v => (v.setWidth 16).signExtend 64)
  | 2 => some (4, fun v => (v.setWidth 32).signExtend 64)
  | 3 => some (8, id)
  | 4 => some (1, id)
  | 5 => some (2, id)
  | 6 => some (4, id)
  | _ => none

def storeSize (f3 : BitVec 3) : Option Nat :=
  match f3.toNat with
  | 0 => some 1
  | 1 => some 2
  | 2 => some 4
  | 3 => some 8
  | _ => none

/-- The value an AMO writes, from the old value and rs2. -/
def amoResult (f5 : BitVec 5) (loaded v : U64) : Option U64 :=
  match f5.toNat with
  | 0x01 => some v
  | 0x00 => some (loaded + v)
  | 0x04 => some (loaded ^^^ v)
  | 0x0C => some (loaded &&& v)
  | 0x08 => some (loaded ||| v)
  | 0x10 => some (if loaded.slt v then loaded else v)
  | 0x14 => some (if v.slt loaded then loaded else v)
  | 0x18 => some (if loaded < v then loaded else v)
  | 0x1C => some (if v < loaded then loaded else v)
  | _ => none

variable [NetDevice]

def execLoad (insn : U32) (nextPc : U64) : Exec U64 := do
  let addr := (← get).x (rs1 insn) + immI insn
  match loadKind (funct3 insn) with
  | none => illegal insn
  | some (size, extend) =>
    let val ← orTrap (rv64CpuLoad addr size .read) addr
    wrM (rd insn) (extend val)
    return nextPc

def execStore (insn : U32) (nextPc : U64) : Exec U64 := do
  let c ← get
  let addr := c.x (rs1 insn) + immS insn
  match storeSize (funct3 insn) with
  | none => illegal insn
  | some size =>
    orTrap (cpuStore addr size (c.x (rs2 insn))) addr
    return nextPc

def execSc (insn : U32) (addr : U64) (size : Nat) : Exec Unit := do
  let c ← get
  if c.reservation.valid && c.reservation.addr == addr then
    orTrap (cpuStore addr size (c.x (rs2 insn))) addr
    wrM (rd insn) 0
  else
    wrM (rd insn) 1
  modify fun c => { c with reservation := { c.reservation with valid := false } }

def execAmo (insn : U32) (nextPc : U64) : Exec U64 := do
  let addr := (← get).x (rs1 insn)
  let size := if funct3 insn = 3 then 8 else 4
  let val ← orTrap (rv64CpuLoad addr size .read) addr
  let loaded := if funct3 insn = 3 then val else (val.setWidth 32).signExtend 64
  let f5 := (funct7 insn).extractLsb' 2 5
  if f5 = 0x02 then
    modify fun c => { c with reservation := ⟨true, addr⟩ }
    wrM (rd insn) loaded
  else if f5 = 0x03 then execSc insn addr size
  else
    match amoResult f5 loaded ((← get).x (rs2 insn)) with
    | none => illegal insn
    | some result =>
      orTrap (cpuStore addr size result) addr
      wrM (rd insn) loaded
  return nextPc

/-! ## SYSTEM -/

def mret (c : Cpu) : Cpu :=
  let mstatus := (c.csr.mstatus &&& ~~~mstatusMie) ||| bit c.csr.mstatus 7 <<< 3
  { c with
    csr := { c.csr with mstatus := (mstatus ||| mstatusMpie) &&& ~~~mstatusMpp }
    priv := (c.csr.mstatus >>> 11 &&& 3).setWidth 8 }

/-- The SRET of a return to user mode fills in the last trap log entry. -/
def backfill (spp : U64) (c : Cpu) : Cpu :=
  if spp = 0 ∧ (0 : U32).slt c.dbg.trap_log_count then
    let s := c.dbg.trap_log_last_slot
    { c with dbg := { c.dbg with
      trap_log := setAt c.dbg.trap_log s { c.dbg.trap_log s with ret_a0 := c.x 10, ret_pc := c.csr.sepc } } }
  else c

def sret (c : Cpu) : Cpu :=
  let spp := bit c.csr.mstatus 8
  let mstatus := (c.csr.mstatus &&& ~~~mstatusSie) ||| bit c.csr.mstatus 5 <<< 1
  backfill spp { c with
    csr := { c.csr with mstatus := (mstatus ||| mstatusSpie) &&& ~~~mstatusSpp }
    priv := spp.setWidth 8 }

/-- ECALL, EBREAK, MRET, SRET, WFI and SFENCE.VMA. -/
def execSystem (insn : U32) (nextPc : U64) : Exec U64 := do
  let c ← get
  if insn = 0x00000073 then
    if c.priv = privU then trapM excEcallU 0
    else if c.priv = privS then trapM excEcallS 0
    else if c.priv = privM then trapM excEcallM 0
    else return nextPc
  else if insn = 0x00100073 then trapM excBreakpoint c.pc
  else if insn = 0x30200073 then
    if c.priv < privM then illegal insn
    else
      set (mret c)
      return c.csr.mepc
  else if insn = 0x10200073 then
    if c.priv < privS then illegal insn
    else
      set (sret c)
      return c.csr.sepc
  else if insn = 0x10500073 then
    set { c with halted := true }
    return nextPc
  else if funct7 insn = 0x09 then
    set (rv64TlbFlush c)
    return nextPc
  else illegal insn

/-- A write of `sstatus` or `mstatus` that sets SIE asks for an interrupt check. -/
def csrWriteChecked (csr : BitVec 12) (val : U64) (c : Cpu) : Cpu :=
  let c' := csrWrite c csr val
  if (csr = csrSstatus ∨ csr = csrMstatus) ∧ c.csr.mstatus.getLsbD 1 = false ∧ c'.csr.mstatus.getLsbD 1 = true then
    { c' with pending_irq_check := true }
  else c'

def execCsr (insn : U32) (nextPc : U64) : Exec U64 := do
  let c ← get
  let csr : BitVec 12 := insn.extractLsb' 20 12
  match csrRead c csr with
  | none => illegal insn
  | some old =>
    let src := if (funct3 insn).getLsbD 2 then (rs1 insn).setWidth 64 else c.x (rs1 insn)
    let op := funct3 insn &&& 3
    let new := if op = 1 then src else if op = 2 then old ||| src else if op = 3 then old &&& ~~~src else old
    if op = 1 ∨ src ≠ 0 then modify (csrWriteChecked csr new)
    wrM (rd insn) old
    return nextPc

/-! ## The instruction -/

variable [HostFp]

def execFp (insn : U32) (nextPc : U64) : Exec U64 := fun c =>
  match rv64FpExec insn c with
  | (.ok, c) => .ok nextPc c
  | (.illegal, c) => illegal insn c
  | (.faulted, c) => .error () c

/-- The `switch` on the opcode: the next pc. -/
def execInsn (insn : U32) (pc nextPc : U64) : Exec U64 := do
  let c ← get
  match (opcode insn).toNat with
  | 0x37 =>
    wrM (rd insn) (immU insn)
    return nextPc
  | 0x17 =>
    wrM (rd insn) (pc + immU insn)
    return nextPc
  | 0x6F =>
    wrM (rd insn) nextPc
    return pc + immJ insn
  | 0x67 =>
    wrM (rd insn) nextPc
    return (c.x (rs1 insn) + immI insn) &&& ~~~1
  | 0x63 =>
    match branchTaken (funct3 insn) (c.x (rs1 insn)) (c.x (rs2 insn)) with
    | none => illegal insn
    | some taken => return if taken then pc + immB insn else nextPc
  | 0x03 => execLoad insn nextPc
  | 0x23 => execStore insn nextPc
  | 0x13 =>
    wrM (rd insn) (aluOpImm insn (c.x (rs1 insn)))
    return nextPc
  | 0x33 =>
    wrM (rd insn) (aluOp (funct7 insn) (funct3 insn) (c.x (rs1 insn)) (c.x (rs2 insn)))
    return nextPc
  | 0x1B =>
    wr32 insn (aluOpImm32 insn ((c.x (rs1 insn)).setWidth 32))
    return nextPc
  | 0x3B =>
    wr32 insn (aluOp32 (funct7 insn) (funct3 insn) ((c.x (rs1 insn)).setWidth 32) ((c.x (rs2 insn)).setWidth 32))
    return nextPc
  | 0x2F => execAmo insn nextPc
  | 0x0F =>
    if funct3 insn = 1 then modify jitFlush
    return nextPc
  | 0x73 => if funct3 insn = 0 then execSystem insn nextPc else execCsr insn nextPc
  | 0x07 | 0x27 | 0x43 | 0x47 | 0x4B | 0x4F | 0x53 => execFp insn nextPc
  | _ => illegal insn

/-- The breakpoint snapshot. -/
def checkBreak (c : Cpu) : Cpu :=
  if c.dbg.break_active && c.pc == c.dbg.break_pc then
    { c with dbg := { c.dbg with
      break_log := setAt c.dbg.break_log (c.dbg.break_log_count.srem 16) ⟨c.pc, c.x, c.f, c.x 2, c.instret⟩
      break_log_count := c.dbg.break_log_count + 1
      debug_halt := c.dbg.debug_halt || c.dbg.break_halt } }
  else c

/-- The fetch: four bytes, or two when four fault. -/
def fetchInsn (pc : U64) : Exec U32 := fun c =>
  match rv64CpuLoad pc 4 .exec c with
  | .ok v c => .ok (v.setWidth 32) c
  | .error exc c =>
    match rv64CpuLoad pc 2 .exec c with
    | .error exc2 c => .error () (trap c exc2 pc)
    | .ok v c => if v &&& 3 = 3 then .error () (trap c exc pc) else .ok (v.setWidth 32) c

def logInsn (insn : U32) (c : Cpu) : Cpu :=
  { c with dbg := { c.dbg with
    inst_log := setAt c.dbg.inst_log (c.dbg.inst_log_idx.srem 4096) ⟨c.pc, insn, c.instret⟩
    inst_log_idx := c.dbg.inst_log_idx + 1 } }

/-- The 32-bit instruction to execute. -/
def expandInsn (insn : U32) : Exec U32 :=
  if isCompressed insn then
    match rv64Uncompress (insn.setWidth 16) with
    | some exp => return exp
    | none => trapM excIllegalInsn ((insn.setWidth 16).setWidth 64)
  else return insn

/-- `cpu->pc = next_pc; cpu->instret++; cpu->cycle++`. -/
def retire (nextPc : U64) (c : Cpu) : Cpu := { c with pc := nextPc, instret := c.instret + 1, cycle := c.cycle + 1 }

def stepBody : Exec Unit := do
  modify checkBreak
  let pc := (← get).pc
  let word ← fetchInsn pc
  modify (logInsn word)
  let insn ← expandInsn word
  let nextPc ← execInsn insn pc (pc + insnBytes (isCompressed word))
  modify (retire nextPc)

/-- `rv64_step`; it never returns -1. -/
def rv64Step (c : Cpu) : Cpu := if c.halted then c else Prog.final (stepBody c)

end PgLinux
