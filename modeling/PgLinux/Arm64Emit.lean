import PgLinux.CpuLayout
import PgLinux.Decode
/-!
# Arm64Emit — the words of the ARM64 backend (`rv64_jit.c`)

`emit` appends a word to the code buffer, and drops it when the buffer is full.  Beside the buffer stand three ghosts: the
calls of `emit`, whether a word was dropped, and whether a word was patched outside.
-/
namespace PgLinux
namespace Arm64

/-! ## The code buffer -/

structure CodeBuf where
  code_buf : List U32
  code_capacity : Nat
  calls : Nat
  dropped : Bool
  outside : Bool

def CodeBuf.code_off (j : CodeBuf) : Nat := j.code_buf.length

def CodeBuf.push (j : CodeBuf) (insn : U32) : CodeBuf :=
  if j.code_off < j.code_capacity then { j with code_buf := j.code_buf ++ [insn], calls := j.calls + 1 }
  else { j with calls := j.calls + 1, dropped := true }

def CodeBuf.patch (j : CodeBuf) (off : Nat) (word : U32) : CodeBuf :=
  if off < j.code_capacity then { j with code_buf := j.code_buf.set off word } else { j with outside := true }

abbrev Emit := StateM CodeBuf

def emit (insn : U32) : Emit Unit := modify (·.push insn)

def codeOff : Emit Nat := return (← get).code_off

/-- `j->code_buf[off] = word`. -/
def patch (off : Nat) (word : U32) : Emit Unit := modify (·.patch off word)

/-! ## Encodings -/

def chunk (imm : U64) (s : Nat) : U16 := (imm >>> (16 * s)).setWidth 16

def movz (s : Nat) (c : U16) (rd : U32) : U32 := 0xD2800000 ||| BitVec.ofNat 32 s <<< 21 ||| c.setWidth 32 <<< 5 ||| rd
def movk (s : Nat) (c : U16) (rd : U32) : U32 := 0xF2800000 ||| BitVec.ofNat 32 s <<< 21 ||| c.setWidth 32 <<< 5 ||| rd

/-- The loop of `emit_mov_imm64`, on the chunks to come; it answers `first`. -/
def movChunks (rd : U32) (imm : U64) : List Nat → Bool → Emit Bool
  | [], first => return first
  | s :: rest, first => do
    if chunk imm s ≠ 0 ∨ (s = 3 ∧ first = true) then
      emit ((if first then movz else movk) s (chunk imm s) rd)
      movChunks rd imm rest false
    else movChunks rd imm rest first

def emitMovImm64 (rd : U32) (imm : U64) : Emit Unit := do
  let first ← movChunks rd imm [0, 1, 2, 3] true
  if first then emit (0xD2800000 ||| rd)

def ldrXWord (rd rn off : U32) : U32 := 0xF9400000 ||| (off / 8) <<< 10 ||| rn <<< 5 ||| rd
def emitLdrX (rd rn off : U32) : Emit Unit := emit (ldrXWord rd rn off)
def strXWord (rd rn off : U32) : U32 := 0xF9000000 ||| (off / 8) <<< 10 ||| rn <<< 5 ||| rd
def emitStrX (rd rn off : U32) : Emit Unit := emit (strXWord rd rn off)
def movWord (rd rm : U32) : U32 := 0xAA0003E0 ||| rm <<< 16 ||| rd
def emitMov (rd rm : U32) : Emit Unit := emit (movWord rd rm)
def addWord (rd rn rm : U32) : U32 := 0x8B000000 ||| rm <<< 16 ||| rn <<< 5 ||| rd
def emitAdd (rd rn rm : U32) : Emit Unit := emit (addWord rd rn rm)
def emitSub (rd rn rm : U32) : Emit Unit := emit (0xCB000000 ||| rm <<< 16 ||| rn <<< 5 ||| rd)
def addImm12Word (rd rn imm12 : U32) : U32 := 0x91000000 ||| imm12 <<< 10 ||| rn <<< 5 ||| rd
def emitAddImm12 (rd rn imm12 : U32) : Emit Unit := emit (addImm12Word rd rn imm12)
def subImm12Word (rd rn imm12 : U32) : U32 := 0xD1000000 ||| imm12 <<< 10 ||| rn <<< 5 ||| rd
def emitSubImm12 (rd rn imm12 : U32) : Emit Unit := emit (subImm12Word rd rn imm12)

def emitAddSimm (rd rn : U32) (imm : U64) : Emit Unit := do
  if 0 ≤ imm.toInt ∧ imm.toInt ≤ 4095 then emitAddImm12 rd rn (imm.setWidth 32)
  else if imm.toInt < 0 ∧ -4095 ≤ imm.toInt then emitSubImm12 rd rn ((-imm).setWidth 32)
  else
    emitMovImm64 4 imm
    emitAdd rd rn 4

def cmpWord (rn rm : U32) : U32 := 0xEB00001F ||| rm <<< 16 ||| rn <<< 5
def emitCmp (rn rm : U32) : Emit Unit := emit (cmpWord rn rm)
def emitB (off_bytes : U32) : Emit Unit := emit (0x14000000 ||| (off_bytes.sdiv 4 &&& 0x3FFFFFF))
def blrWord (rn : U32) : U32 := 0xD63F0000 ||| rn <<< 5
def emitBlr (rn : U32) : Emit Unit := emit (blrWord rn)

def condEQ : U32 := 0
def condNE : U32 := 1
def condHS : U32 := 2
def condLO : U32 := 3
def condHI : U32 := 8
def condGE : U32 := 10
def condLT : U32 := 11

def emitCset (rd inv_cond : U32) : Emit Unit := emit (0x9A9F07E0 ||| inv_cond <<< 12 ||| rd)
def sxtwWord (rd rn : U32) : U32 := 0x93407C00 ||| rn <<< 5 ||| rd
def emitSxtw (rd rn : U32) : Emit Unit := emit (sxtwWord rd rn)
def sxthWord (rd rn : U32) : U32 := 0x93403C00 ||| rn <<< 5 ||| rd
def emitSxth (rd rn : U32) : Emit Unit := emit (sxthWord rd rn)
def sxtbWord (rd rn : U32) : U32 := 0x93401C00 ||| rn <<< 5 ||| rd
def emitSxtb (rd rn : U32) : Emit Unit := emit (sxtbWord rd rn)
def emitAddW (rd rn rm : U32) : Emit Unit := emit (0x0B000000 ||| rm <<< 16 ||| rn <<< 5 ||| rd)
def emitSubW (rd rn rm : U32) : Emit Unit := emit (0x4B000000 ||| rm <<< 16 ||| rn <<< 5 ||| rd)
def emitAddWImm12 (rd rn imm12 : U32) : Emit Unit := emit (0x11000000 ||| imm12 <<< 10 ||| rn <<< 5 ||| rd)
def movzWWord (rd : U32) (imm : U16) : U32 := 0x52800000 ||| imm.setWidth 32 <<< 5 ||| rd
def emitMovzW (rd : U32) (imm : U16) : Emit Unit := emit (movzWWord rd imm)

def emitAddWSimm (rd rn imm : U32) : Emit Unit := do
  if 0 ≤ imm.toInt ∧ imm.toInt ≤ 4095 then emitAddWImm12 rd rn imm
  else if imm.toInt < 0 ∧ -4095 ≤ imm.toInt then emit (0x51000000 ||| (-imm) <<< 10 ||| rn <<< 5 ||| rd)
  else
    emitMovzW 4 (imm.setWidth 16)
    if imm.sshiftRight 16 ≠ 0 then emit (0x72A00000 ||| (imm.sshiftRight 16 &&& 0xFFFF) <<< 5 ||| 4)
    emitAddW rd rn 4

def lsrImmWord (rd rn shift : U32) : U32 := 0xD340FC00 ||| shift <<< 16 ||| rn <<< 5 ||| rd
def emitLsrImm (rd rn shift : U32) : Emit Unit := emit (lsrImmWord rd rn shift)
def lslImmWord (rd rn shift : U32) : U32 :=
  0xD3400000 ||| ((64 - shift) &&& 63) <<< 16 ||| (63 - shift) <<< 10 ||| rn <<< 5 ||| rd
def emitLslImm (rd rn shift : U32) : Emit Unit := emit (lslImmWord rd rn shift)

/-- AND with the low `bits` bits. -/
def andImmWord (rd rn bits : U32) : U32 := 0x92400000 ||| (bits - 1) <<< 10 ||| rn <<< 5 ||| rd
def emitAndImm (rd rn bits : U32) : Emit Unit := emit (andImmWord rd rn bits)

def ldrbUoffWord (rt rn off : U32) : U32 := 0x39400000 ||| off <<< 10 ||| rn <<< 5 ||| rt
def emitLdrbUoff (rt rn off : U32) : Emit Unit := emit (ldrbUoffWord rt rn off)

/-- Loads and stores at `[Xn, Xm]`, by size. -/
def ldrRegBase (size : Nat) : U32 :=
  match size with
  | 1 => 0x38606800
  | 2 => 0x78606800
  | 4 => 0xB8606800
  | _ => 0xF8606800

def strRegBase (size : Nat) : U32 :=
  match size with
  | 1 => 0x38206800
  | 2 => 0x78206800
  | 4 => 0xB8206800
  | _ => 0xF8206800

def ldrRegWord (size : Nat) (rt rn rm : U32) : U32 := ldrRegBase size ||| rm <<< 16 ||| rn <<< 5 ||| rt
def emitLdrReg (size : Nat) (rt rn rm : U32) : Emit Unit := emit (ldrRegWord size rt rn rm)
def strRegWord (size : Nat) (rt rn rm : U32) : U32 := strRegBase size ||| rm <<< 16 ||| rn <<< 5 ||| rt
def emitStrReg (size : Nat) (rt rn rm : U32) : Emit Unit := emit (strRegWord size rt rn rm)

def bcondWord (cond : U32) (dist : Nat) : U32 := 0x54000000 ||| cond ||| (BitVec.ofNat 32 dist &&& 0x7FFFF) <<< 5
def cbzWord (rn : U32) (dist : Nat) : U32 := 0xB4000000 ||| rn ||| (BitVec.ofNat 32 dist &&& 0x7FFFF) <<< 5
def bWord (dist : Nat) : U32 := 0x14000000 ||| (BitVec.ofNat 32 dist &&& 0x3FFFFFF)

/-! ## Guest registers -/

def cpuReg : U32 := 19

/-- `XOFF(i)`. -/
def xoff (i : BitVec 5) : U32 := i.setWidth 32 * 8
def offPc : U32 := BitVec.ofNat 32 (CpuLayout.cpuFields.offsetOf "pc")
def offInstret : U32 := BitVec.ofNat 32 (CpuLayout.cpuFields.offsetOf "instret")
def offCycle : U32 := BitVec.ofNat 32 (CpuLayout.cpuFields.offsetOf "cycle")

def emitLoadGuest (armRd : U32) (guestRs : BitVec 5) : Emit Unit :=
  if guestRs = 0 then emitMovImm64 armRd 0 else emitLdrX armRd cpuReg (xoff guestRs)

def emitStoreGuest (armRs : U32) (guestRd : BitVec 5) : Emit Unit := do
  if guestRd ≠ 0 then emitStrX armRs cpuReg (xoff guestRd)

/-! ## Prologue and epilogue -/

def emitPrologue : Emit Unit := do
  emit 0xA9BD7BF3
  emit 0xA90157F4
  emitMov cpuReg 0
  emitMovzW 21 0

/-- The words of the epilogue: the counters, the result and the return. -/
def emitReturn : Emit Unit := do
  emitLdrX 0 cpuReg offInstret
  emitAdd 0 0 21
  emitStrX 0 cpuReg offInstret
  emitLdrX 0 cpuReg offCycle
  emitAdd 0 0 21
  emitStrX 0 cpuReg offCycle
  emitMovImm64 2 (BitVec.ofNat 64 CpuLayout.offExec)
  emitAdd 2 cpuReg 2
  emitLdrX 0 2 0
  emitAdd 0 0 21
  emitStrX 0 2 0
  emitMov 0 21
  emit 0xA94157F4
  emit 0xA8C37BF3
  emit 0xD65F03C0

/-- `emit_epilogue`; it answers where it starts. -/
def emitEpilogue : Emit Nat := do
  let epiOff ← codeOff
  emitReturn
  return epiOff

/-! ## Arithmetic

A compiler of an instruction answers whether it could; the words it emitted before it gave up stay. -/

def jitOpM (f3 : BitVec 3) : Emit Bool := do
  match f3.toNat with
  | 0 => emit 0x9B017C00; return true
  | 1 => emit 0x9B417C00; return true
  | 3 => emit 0x9BC17C00; return true
  | 4 => emitCmp 1 31; return false
  | _ => return false

def jitOpBase (f3 : BitVec 3) (f7 : BitVec 7) : Emit Bool := do
  match f3.toNat with
  | 0 =>
    if f7 = 0 then emitAdd 0 0 1; return true
    else if f7 = 0x20 then emitSub 0 0 1; return true
    else return false
  | 1 => emit 0x9AC12000; return true
  | 2 => emitCmp 0 1; emitCset 0 condGE; return true
  | 3 => emitCmp 0 1; emitCset 0 condHS; return true
  | 4 => emit 0xCA010000; return true
  | 5 =>
    if f7 = 0 then emit 0x9AC12400; return true
    else if f7 = 0x20 then emit 0x9AC12800; return true
    else return false
  | 6 => emit 0xAA010000; return true
  | _ => emit 0x8A010000; return true

def jitOp (rd rs1 rs2 : BitVec 5) (f3 : BitVec 3) (f7 : BitVec 7) : Emit Bool :=
  if rd = 0 then return true
  else do
    emitLoadGuest 0 rs1
    emitLoadGuest 1 rs2
    if ← (if f7 = 1 then jitOpM f3 else jitOpBase f3 f7) then
      emitStoreGuest 0 rd
      return true
    else return false

def shamt6 (insn : U32) : U32 := (insn >>> 20) &&& 0x3F
def shamt5 (insn : U32) : U32 := (insn >>> 20) &&& 0x1F

def emitOpImm (insn : U32) (f3 : BitVec 3) : Emit Unit := do
  let imm := immI insn
  let shamt := shamt6 insn
  match f3.toNat with
  | 0 => emitAddSimm 0 0 imm
  | 1 => if shamt ≠ 0 then emit (0xD3400000 ||| ((64 - shamt) &&& 63) <<< 16 ||| (63 - shamt) <<< 10)
  | 2 => emitMovImm64 1 imm; emitCmp 0 1; emitCset 0 condGE
  | 3 => emitMovImm64 1 imm; emitCmp 0 1; emitCset 0 condHS
  | 4 =>
    if imm = ~~~0 then emit 0xAA2003E0
    else emitMovImm64 1 imm; emit 0xCA010000
  | 5 =>
    if shamt ≠ 0 then
      if insn.getLsbD 30 then emit (0x9340FC00 ||| shamt <<< 16) else emit (0xD340FC00 ||| shamt <<< 16)
  | 6 => emitMovImm64 1 imm; emit 0xAA010000
  | _ => emitMovImm64 1 imm; emit 0x8A010000

def jitOpImm (insn : U32) (rd rs1 : BitVec 5) (f3 : BitVec 3) : Emit Bool :=
  if rd = 0 then return true
  else do
    emitLoadGuest 0 rs1
    emitOpImm insn f3
    emitStoreGuest 0 rd
    return true

/-- The 32-bit operations; M has only MULW. -/
def emitOp32 (f3 : BitVec 3) (f7 : BitVec 7) : Emit Bool := do
  if f7 = 1 then
    if f3 = 0 then emit 0x1B017C00; return true else return false
  else
    match f3.toNat with
    | 0 =>
      if f7 = 0 then emitAddW 0 0 1; return true
      else if f7 = 0x20 then emitSubW 0 0 1; return true
      else return false
    | 1 => emit 0x1AC12000; return true
    | 5 =>
      if f7 = 0 then emit 0x1AC12400; return true
      else if f7 = 0x20 then emit 0x1AC12800; return true
      else return false
    | _ => return false

def jitOp32 (rd rs1 rs2 : BitVec 5) (f3 : BitVec 3) (f7 : BitVec 7) : Emit Bool :=
  if rd = 0 then return true
  else do
    emitLoadGuest 0 rs1
    emitLoadGuest 1 rs2
    if ← emitOp32 f3 f7 then
      emitSxtw 0 0
      emitStoreGuest 0 rd
      return true
    else return false

def emitOpImm32 (insn : U32) (f3 : BitVec 3) : Emit Bool := do
  let shamt := shamt5 insn
  match f3.toNat with
  | 0 => emitAddWSimm 0 0 ((immI insn).setWidth 32); return true
  | 1 =>
    if shamt ≠ 0 then emit (0x53000000 ||| ((32 - shamt) &&& 31) <<< 16 ||| (31 - shamt) <<< 10)
    return true
  | 5 =>
    if shamt ≠ 0 then
      if insn.getLsbD 30 then emit (0x13007C00 ||| shamt <<< 16) else emit (0x53007C00 ||| shamt <<< 16)
    return true
  | _ => return false

def jitOpImm32 (insn : U32) (rd rs1 : BitVec 5) (f3 : BitVec 3) : Emit Bool :=
  if rd = 0 then return true
  else do
    emitLoadGuest 0 rs1
    if ← emitOpImm32 insn f3 then
      emitSxtw 0 0
      emitStoreGuest 0 rd
      return true
    else return false

def jitLui (insn : U32) (rd : BitVec 5) : Emit Bool :=
  if rd = 0 then return true
  else do
    emitMovImm64 0 (immU insn)
    emitStoreGuest 0 rd
    return true

def jitAuipc (insn : U32) (rd : BitVec 5) (pc : U64) : Emit Bool :=
  if rd = 0 then return true
  else do
    emitMovImm64 0 (pc + immU insn)
    emitStoreGuest 0 rd
    return true

/-- FENCE does nothing; FENCE.I is not compiled. -/
def jitFence (insn : U32) : Emit Bool := return decide (funct3 insn ≠ 1)

/-! ## Jumps -/

def jitJal (insn : U32) (rd : BitVec 5) (pc size : U64) : Emit Bool := do
  if rd ≠ 0 then
    emitMovImm64 0 (pc + size)
    emitStoreGuest 0 rd
  emitMovImm64 0 (pc + immJ insn)
  emitStrX 0 cpuReg offPc
  return true

def jitJalr (insn : U32) (rd rs1 : BitVec 5) (pc size : U64) : Emit Bool := do
  if rd ≠ 0 then emitMovImm64 2 (pc + size)
  emitLoadGuest 0 rs1
  emitAddSimm 0 0 (immI insn)
  emitMovImm64 1 (~~~1)
  emit 0x8A010000
  emitStrX 0 cpuReg offPc
  if rd ≠ 0 then emitStoreGuest 2 rd
  return true

/-- A jump to be patched. -/
def emitHole : Emit Nat := do
  let off ← codeOff
  emit 0
  return off

def branchCond (f3 : BitVec 3) : Option U32 :=
  match f3.toNat with
  | 0 => some condEQ
  | 1 => some condNE
  | 4 => some condLT
  | 5 => some condGE
  | 6 => some condLO
  | 7 => some condHS
  | _ => none

/-- `(int32_t)(target - off) * 4`. -/
def distBytes (target off : Nat) : U32 := (BitVec.ofNat 32 target - BitVec.ofNat 32 off) * 4

/-- One side of a branch: the next pc, and a jump to the epilogue. -/
def emitSide (target : U64) (epiOff : Nat) : Emit Unit := do
  emitMovImm64 0 target
  emitStrX 0 cpuReg offPc
  emitB (distBytes epiOff (← codeOff))

def jitBranch (insn : U32) (rs1 rs2 : BitVec 5) (f3 : BitVec 3) (pc size : U64) (epiOff : Nat) : Emit Bool := do
  emitLoadGuest 0 rs1
  emitLoadGuest 1 rs2
  emitCmp 0 1
  match branchCond f3 with
  | none => return false
  | some cond =>
    let bcondOff ← emitHole
    emitSide (pc + size) epiOff
    patch bcondOff (bcondWord cond ((← codeOff) - bcondOff))
    emitSide (pc + immB insn) epiOff
    return true

/-! ## Loads and stores -/

/-- `j->fn_load` and `j->fn_store`. -/
structure Helpers where
  fn_load : U64
  fn_store : U64

def offTlb : U32 := 888

/-- The tag check and the host page check: where their branches to the slow path stand. -/
def emitTlbProbe : Emit (Nat × Nat) := do
  emitLsrImm 5 1 12
  emitAndImm 6 5 12
  emitLslImm 6 6 5
  emitAdd 6 6 cpuReg
  emitAddImm12 6 6 offTlb
  emitLdrX 7 6 0
  emitCmp 7 5
  let bneSlow ← emitHole
  emitLdrX 8 6 16
  let cbzSlow ← emitHole
  return (bneSlow, cbzSlow)

/-- The page-crossing check, of accesses of more than a byte. -/
def emitPageCheck (t : U32) (size : Nat) : Emit (Option Nat) :=
  if 1 < size then do
    emitAddImm12 t 9 (BitVec.ofNat 32 size)
    emitMovImm64 4 4096
    emitCmp t 4
    return some (← emitHole)
  else return none

/-- The size of a load, and whether it is sign-extended. -/
def loadSize (f3 : BitVec 3) : Option (Nat × Bool) :=
  match f3.toNat with
  | 0 => some (1, true)
  | 1 => some (2, true)
  | 2 => some (4, true)
  | 3 => some (8, false)
  | 4 => some (1, false)
  | 5 => some (2, false)
  | 6 => some (4, false)
  | _ => none

def emitSext (doSext : Bool) (size : Nat) (rd rn : U32) : Emit Unit :=
  if doSext then
    match size with
    | 1 => emitSxtb rd rn
    | 2 => emitSxth rd rn
    | _ => emitSxtw rd rn
  else return ()

/-- The call of `rv64_jit_load`; it answers where its exception exit is to be patched in. -/
def emitLoadCall (h : Helpers) (size : Nat) : Emit Nat := do
  emitMov 0 cpuReg
  emitMovzW 2 (BitVec.ofNat 16 size)
  emitAddImm12 3 31 0
  emitMovImm64 16 h.fn_load
  emitBlr 16
  let cbnzOff ← emitHole
  emitLdrX 2 31 0
  return cbnzOff

def emitStoreCall (h : Helpers) (size : Nat) : Emit Nat := do
  emitMov 0 cpuReg
  emitMov 3 2
  emitMovzW 2 (BitVec.ofNat 16 size)
  emitMovImm64 16 h.fn_store
  emitBlr 16
  emitHole

def fixupResult (cbnzOff : Nat) : U32 := 1 ||| BitVec.ofNat 32 cbnzOff <<< 8

/-- The branches of a fast path that are patched later; a check that is not made has none. -/
structure Branches where
  bne_slow : Nat
  cbz_slow : Nat
  cbz_dirty : Option Nat
  bhi_slow : Option Nat
  b_done : Nat

def emitLoadFast (size : Nat) : Emit Branches := do
  let probe ← emitTlbProbe
  emitAndImm 9 1 12
  let bhiSlow ← emitPageCheck 10 size
  emitLdrReg size 2 8 9
  let bDone ← emitHole
  return ⟨probe.1, probe.2, none, bhiSlow, bDone⟩

/-- The dirty flag of the entry is checked too. -/
def emitStoreFast (size : Nat) : Emit Branches := do
  let probe ← emitTlbProbe
  emitLdrbUoff 10 6 26
  let cbzDirty ← emitHole
  emitAndImm 9 1 12
  let bhiSlow ← emitPageCheck 11 size
  emitStrReg size 2 8 9
  let bDone ← emitHole
  return ⟨probe.1, probe.2, some cbzDirty, bhiSlow, bDone⟩

def patchSome (off : Option Nat) (word : Nat → U32) : Emit Unit :=
  match off with
  | none => return ()
  | some off => patch off (word off)

/-- The branches to the slow path, which starts here. -/
def patchSlow (b : Branches) : Emit Unit := do
  let slowOff ← codeOff
  patch b.bne_slow (bcondWord condNE (slowOff - b.bne_slow))
  patch b.cbz_slow (cbzWord 8 (slowOff - b.cbz_slow))
  patchSome b.cbz_dirty fun off => cbzWord 10 (slowOff - off)
  patchSome b.bhi_slow fun off => bcondWord condHI (slowOff - off)

/-- The jump over the slow path, which ends here. -/
def patchDone (b : Branches) : Emit Unit := do
  patch b.b_done (bWord ((← codeOff) - b.b_done))

/-- The load after its address: fast path, slow path and, from both, the value into `rd`. -/
def emitLoadAccess (h : Helpers) (rd : BitVec 5) (size : Nat) (doSext : Bool) : Emit U32 := do
  let b ← emitLoadFast size
  patchSlow b
  let cbnzOff ← emitLoadCall h size
  patchDone b
  emitSext doSext size 2 2
  emitStoreGuest 2 rd
  patch cbnzOff (BitVec.ofNat 32 cbnzOff)
  return fixupResult cbnzOff

/-- The pc of the access, for a fault, and its address in x1. -/
def emitAddress (pc imm : U64) (rs1 : BitVec 5) : Emit Unit := do
  emitMovImm64 0 pc
  emitStrX 0 cpuReg offPc
  emitLoadGuest 1 rs1
  emitAddSimm 1 1 imm

/-- `jit_load`: 0, or 1 with the place of the exception exit. -/
def jitLoad (h : Helpers) (insn : U32) (rd rs1 : BitVec 5) (f3 : BitVec 3) (pc : U64) : Emit U32 :=
  match loadSize f3 with
  | none => return 0
  | some (size, doSext) => do
    emitAddress pc (immI insn) rs1
    emitLoadAccess h rd size doSext

def storeSize (f3 : BitVec 3) : Option Nat :=
  match f3.toNat with
  | 0 => some 1
  | 1 => some 2
  | 2 => some 4
  | 3 => some 8
  | _ => none

/-- The store after its address and value. -/
def emitStoreAccess (h : Helpers) (size : Nat) : Emit U32 := do
  let b ← emitStoreFast size
  patchSlow b
  let cbnzOff ← emitStoreCall h size
  patchDone b
  patch cbnzOff (BitVec.ofNat 32 cbnzOff)
  return fixupResult cbnzOff

def jitStore (h : Helpers) (insn : U32) (rs1 rs2 : BitVec 5) (f3 : BitVec 3) (pc : U64) : Emit U32 :=
  match storeSize f3 with
  | none => return 0
  | some size => do
    emitAddress pc (immS insn) rs1
    emitLoadGuest 2 rs2
    emitStoreAccess h size

end Arm64
end PgLinux
