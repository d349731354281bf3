import PgLinux.Arm64Emit
import PgLinux.Mmu
/-!
# Arm64Block — compiling a block (`rv64_jit.c`)

The space for a block is reserved before its first word, from an estimate of 30 words an instruction.  The cache that a
finished block is put in is left out.
-/
namespace PgLinux
namespace Arm64

variable [NetDevice]

/-! ## Fetch -/

/-- `decompress`, the interpreter's expansion without the FP forms; 0 where there is none. -/
def decompress (ci : U16) : U32 :=
  let quad := (ci.extractLsb' 0 2).toNat
  let funct3c := (ci.extractLsb' 13 3).toNat
  let nzuimm := cbits ci 5 1 <<< 3 ||| cbits ci 6 1 <<< 2 ||| cbits ci 7 4 <<< 6 ||| cbits ci 11 2 <<< 4
  if (quad = 0 ∨ quad = 2) ∧ (funct3c = 1 ∨ funct3c = 5) then 0
  else if quad = 0 ∧ funct3c = 0 ∧ nzuimm = 0 then 0
  else (rv64Uncompress ci).getD 0

/-- The word at `pc` and whether it is compressed. -/
def jitFetchInsn (pc : U64) (c : Cpu) : Option (U32 × Bool) × Cpu :=
  match rv64CpuLoad pc 4 .exec c with
  | .ok val c =>
    let insn : U32 := val.setWidth 32
    (some (if isCompressed insn then (insn &&& 0xFFFF, true) else (insn, false)), c)
  | .error _ c =>
    match rv64CpuLoad pc 2 .exec c with
    | .ok val c => (some (val.setWidth 32 &&& 0xFFFF, true), c)
    | .error _ c => (none, c)

def expand (raw : U32) (compressed : Bool) : U32 := if compressed then decompress (raw.setWidth 16) else raw

/-! ## The loop over instructions -/

def jitMaxBlockInsns : Nat := 64

inductive Result where
  | compiled | cannot | deferred
deriving DecidableEq

/-- The locals of `jit_compile_block`. -/
structure Compile where
  pc : U64
  insn_count : Nat
  block_ended : Bool
  has_store : Bool
  fixups : List Nat
  last_opcode : BitVec 7
  last_pc : U64

def Compile.start (pc : U64) : Compile := ⟨pc, 0, false, false, [], 0, 0⟩

def ofBool (ok : Bool) : Result := if ok then .compiled else .cannot

/-- What `jit_load` or `jit_store` answered: its exception exit is kept for later. -/
def Compile.noteFixup (k : Compile) (result : U32) : Compile :=
  if result.getLsbD 0 then
    let fx := (result >>> 8).toNat
    if fx ≠ 0 ∧ k.fixups.length < jitMaxBlockInsns then { k with fixups := k.fixups ++ [fx] } else k
  else k

/-- The switch on the opcode. -/
def Compile.insn (h : Helpers) (k : Compile) (insn : U32) (size : U64) : Emit (Result × Compile) := do
  match (opcode insn).toNat with
  | 0x33 => return (ofBool (← jitOp (rd insn) (rs1 insn) (rs2 insn) (funct3 insn) (funct7 insn)), k)
  | 0x13 => return (ofBool (← jitOpImm insn (rd insn) (rs1 insn) (funct3 insn)), k)
  | 0x3B => return (ofBool (← jitOp32 (rd insn) (rs1 insn) (rs2 insn) (funct3 insn) (funct7 insn)), k)
  | 0x1B => return (ofBool (← jitOpImm32 insn (rd insn) (rs1 insn) (funct3 insn)), k)
  | 0x37 => return (ofBool (← jitLui insn (rd insn)), k)
  | 0x17 => return (ofBool (← jitAuipc insn (rd insn) k.pc), k)
  | 0x0F => return (ofBool (← jitFence insn), k)
  | 0x03 =>
    let result ← jitLoad h insn (rd insn) (rs1 insn) (funct3 insn) k.pc
    return (ofBool (result.getLsbD 0), k.noteFixup result)
  | 0x23 =>
    let result ← jitStore h insn (rs1 insn) (rs2 insn) (funct3 insn) k.pc
    return (ofBool (result.getLsbD 0), { k.noteFixup result with has_store := k.has_store || result.getLsbD 0 })
  | 0x6F => return (ofBool (← jitJal insn (rd insn) k.pc size), { k with block_ended := true })
  | 0x67 => return (ofBool (← jitJalr insn (rd insn) (rs1 insn) k.pc size), { k with block_ended := true })
  | 0x63 => return (.deferred, { k with block_ended := true })
  | _ => return (.cannot, k)

/-- `ADD w21, w21, #1`. -/
def countWord : U32 := 0x11000400 ||| 21 <<< 5 ||| 21

/-- The loop, with `n` instructions to go before the length limit. -/
def compileLoop (h : Helpers) : Nat → Compile → Cpu → Emit (Compile × Cpu)
  | 0, k, c => return (k, c)
  | n + 1, k, c =>
    match jitFetchInsn k.pc c with
    | (none, c) => return (k, c)
    | (some (raw, compressed), c) =>
      let insn := expand raw compressed
      if compressed ∧ insn = 0 then return (k, c)
      else do
        let (result, k) ← Compile.insn h { k with last_opcode := opcode insn, last_pc := k.pc } insn (insnBytes compressed)
        match result with
        | .deferred => return ({ k with insn_count := k.insn_count + 1 }, c)
        | .cannot => return (k, c)
        | .compiled =>
          emit countWord
          let k := { k with insn_count := k.insn_count + 1 }
          if k.block_ended then return (k, c)
          else compileLoop h n { k with pc := k.pc + insnBytes compressed } c

/-! ## The block -/

/-- `max_needed`. -/
def maxNeeded : Nat := 4 + jitMaxBlockInsns * 30 + 12

/-- `jit_flush`, of the buffer. -/
def CodeBuf.flush (j : CodeBuf) : CodeBuf := { j with code_buf := [] }

def CodeBuf.revert (j : CodeBuf) (blockStart : Nat) : CodeBuf := { j with code_buf := j.code_buf.take blockStart }

def jumpTarget (p : Nat) (w : U32) : U32 := BitVec.ofNat 32 p + (w <<< 6).sshiftRight 6

/-- The jumps to the dummy epilogue, redirected: the loop from word `p`, with `n` words to go. -/
def patchJumps (dummyEpi epiOff : Nat) : Nat → Nat → Emit Unit
  | 0, _ => return ()
  | n + 1, p => do
    let w := (← get).code_buf.getD p 0
    if w &&& 0xFC000000 = 0x14000000 ∧ jumpTarget p w = BitVec.ofNat 32 dummyEpi then patch p (bWord (epiOff - p))
    patchJumps dummyEpi epiOff n (p + 1)

/-- The exception exits, redirected to the epilogue where the sentinel still stands. -/
def patchFixups (epiOff : Nat) : List Nat → Emit Unit
  | [] => return ()
  | fx :: fixups => do
    let j ← get
    if fx < j.code_capacity ∧ j.code_buf.getD fx 0 = BitVec.ofNat 32 fx then
      patch fx (0x35000000 ||| (BitVec.ofNat 32 (epiOff - fx) &&& 0x7FFFF) <<< 5)
    patchFixups epiOff fixups

/-- `struct jit_block`; `host_code` is the index of its first word. -/
structure Block where
  guest_pc : U64
  host_code : Nat
  insn_count : Nat
  has_store : Bool

def Compile.block (k : Compile) (guestPc : U64) (blockStart : Nat) : Block :=
  ⟨guestPc, blockStart, k.insn_count, k.has_store⟩

def finishBlock (k : Compile) : Emit Unit := do
  let epiOff ← emitEpilogue
  patchFixups epiOff k.fixups

/-- The deferred branch, with its epilogue. -/
def finishBranch (k : Compile) (brInsn : U32) (brCompressed : Bool) : Emit Unit := do
  let insn := expand brInsn brCompressed
  emit countWord
  let branchStart ← codeOff
  let dummyEpi := branchStart + 50
  let _ ← jitBranch insn (rs1 insn) (rs2 insn) (funct3 insn) k.last_pc (insnBytes brCompressed) dummyEpi
  let epiOff ← emitEpilogue
  patchJumps dummyEpi epiOff (epiOff - branchStart) branchStart
  patchFixups epiOff k.fixups

/-- What follows the last instruction. -/
def finish (k : Compile) (c : Cpu) : Emit Cpu := do
  if !k.block_ended then
    emitMovImm64 0 k.pc
    emitStrX 0 cpuReg offPc
  if k.block_ended ∧ k.last_opcode = 0x63 then
    match jitFetchInsn k.last_pc c with
    | (some (brInsn, brCompressed), c) => do
      finishBranch k brInsn brCompressed
      return c
    | (none, c) => do
      finishBlock k
      return c
  else
    finishBlock k
    return c

/-- The check for space, before the first word of a block. -/
def reserve : Emit Unit := modify fun j => if j.code_capacity < j.code_off + maxNeeded then j.flush else j

/-- The block is given up when nothing was compiled. -/
def closeBlock (guestPc : U64) (blockStart : Nat) (k : Compile) (c : Cpu) : Emit (Option Block × Cpu) :=
  if k.insn_count = 0 then do
    modify (·.revert blockStart)
    return (none, c)
  else do
    let c ← finish k c
    return (some (k.block guestPc blockStart), c)

def jitCompileBlock (h : Helpers) (guestPc : U64) (c : Cpu) : Emit (Option Block × Cpu) := do
  reserve
  let blockStart ← codeOff
  emitPrologue
  let r ← compileLoop h jitMaxBlockInsns (.start guestPc) c
  closeBlock guestPc blockStart r.1 r.2

/-- `JIT_CODE_BUF_SIZE / 4`, and the words of the background worker's buffer. -/
def jitCapacity : Nat := 64 * 1024 * 1024 / 4
def workerCapacity : Nat := 1024 * 1024

def emptyBuf : CodeBuf := ⟨[], jitCapacity, 0, false, false⟩

/-- The helpers where a loader may put them. -/
def highHelpers : Helpers := ⟨0x104A2C3D8, 0x104A2C4E0⟩

end Arm64
end PgLinux
