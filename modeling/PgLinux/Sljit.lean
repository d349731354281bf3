import PgLinux.Decode
/-!
# Sljit — the operations a block is made of, and what one instruction emits (`rv64_sljit.c`)

A block is a list of operations with forward jumps to three labels.  `emitInsn` is the decoder of `jit_compile_block`:
the operations emitted for one instruction, whether the decoder supported it, and whether it ended the block.
-/
namespace PgLinux

/-! ## Operations -/

/-- Scratch registers, `S0` (`CPU_REG`) and `S1` (`COUNT_REG`). -/
inductive SReg where
  | R0 | R1 | R2 | R3 | S0 | S1
deriving DecidableEq

/-- `x r` and `pc` are `SLJIT_MEM1(CPU_REG)` at the offsets of those fields, `loc` is `SLJIT_MEM1(SLJIT_SP)`. -/
inductive Operand where
  | reg (r : SReg)
  | imm (v : U64)
  | x (r : BitVec 5)
  | pc
  | loc
deriving DecidableEq

inductive MovType where
  | mov | s8 | s16 | s32 | u8 | u16 | u32
deriving DecidableEq

inductive Op2 where
  | add | sub | shl | lshr | ashr | and | or | xor | add32 | sub32 | shl32 | lshr32 | ashr32
deriving DecidableEq

inductive Cond where
  | equal | notEqual | sigLess | sigGreaterEqual | less | greaterEqual
deriving DecidableEq

inductive Label where
  | epilogue | taken | done
deriving DecidableEq

/-- The C functions a block calls. -/
inductive ICall where
  | load | store | fpExec
deriving DecidableEq

inductive SljitOp where
  | mov (t : MovType) (dst src : Operand)
  | op2 (op : Op2) (dst src1 src2 : Operand)
  | flags (dst : SReg) (c : Cond)
  | cmp (c : Cond) (a b : Operand) (l : Label)
  | jump (l : Label)
  | label (l : Label)
  | localBase (dst : SReg)
  | icall (f : ICall)
deriving DecidableEq

/-! ## Emission -/

def r0 : Operand := .reg .R0
def r1 : Operand := .reg .R1
def r2 : Operand := .reg .R2
def r3 : Operand := .reg .R3

def emitLoadGuest (dst : SReg) (grs : BitVec 5) : SljitOp :=
  if grs = 0 then .mov .mov (.reg dst) (.imm 0) else .mov .mov (.reg dst) (.x grs)

def emitStoreGuest (grs : BitVec 5) (src : SReg) : List SljitOp :=
  if grs = 0 then [] else [.mov .mov (.x grs) (.reg src)]

/-- `emit_memory_icall`: the call, the jump on its result to the epilogue, and a load's value in `R0`. -/
def emitMemoryIcall (isStore : Bool) (size : U64) (rs1 : BitVec 5) (imm : U64) (rs2 : BitVec 5) : List SljitOp :=
  (if rs1 = 0 then [.mov .mov r1 (.imm imm)] else [.mov .mov r1 (.x rs1), .op2 .add r1 r1 (.imm imm)]) ++
  [.mov .mov r0 (.reg .S0), .mov .mov r2 (.imm size)] ++
  (if isStore then [if rs2 = 0 then .mov .mov r3 (.imm 0) else .mov .mov r3 (.x rs2), .icall .store]
    else [.localBase .R3, .icall .load]) ++
  [.cmp .notEqual r0 (.imm 0) .epilogue] ++
  (if isStore then [] else [.mov .mov r0 .loc])

/-- What the decoder did with one instruction. -/
structure Emitted where
  ops : List SljitOp
  supported : Bool
  block_ended : Bool
  epilogue_jump : Bool

def Emitted.alu (ops : List SljitOp) : Emitted := ⟨ops, true, false, false⟩
def Emitted.unsupported (ops : List SljitOp) : Emitted := ⟨ops, false, false, false⟩
def Emitted.last (ops : List SljitOp) : Emitted := ⟨ops, true, true, false⟩
def Emitted.call (ops : List SljitOp) : Emitted := ⟨ops, true, false, true⟩

/-- `(int32_t)insn >> 20`, as a machine word. -/
def jitImmI (insn : U32) : U64 := (insn.sshiftRight 20).signExtend 64

/-- The operations of an OP instruction, between the loads of its sources and the store of its result. -/
def emitOpAlu (insn : U32) : List SljitOp :=
  match (funct3 insn).toNat with
  | 0 => [.op2 (if funct7 insn = 0x20 then .sub else .add) r0 r0 r1]
  | 1 => [.op2 .shl r0 r0 r1]
  | 2 => [.op2 .sub r0 r0 r1, .flags .R0 .sigLess]
  | 3 => [.op2 .sub r0 r0 r1, .flags .R0 .less]
  | 4 => [.op2 .xor r0 r0 r1]
  | 5 => [.op2 (if funct7 insn = 0x20 then .ashr else .lshr) r0 r0 r1]
  | 6 => [.op2 .or r0 r0 r1]
  | _ => [.op2 .and r0 r0 r1]

def emitOp (insn : U32) : Emitted :=
  .alu ([emitLoadGuest .R0 (rs1 insn), emitLoadGuest .R1 (rs2 insn)] ++ emitOpAlu insn ++ emitStoreGuest (rd insn) .R0)

def emitOpImmAlu (insn : U32) : List SljitOp :=
  let imm := jitImmI insn
  match (funct3 insn).toNat with
  | 0 => [.op2 .add r0 r0 (.imm imm)]
  | 1 => [.op2 .shl r0 r0 (.imm (imm &&& 0x3F))]
  | 2 => [.op2 .sub r0 r0 (.imm imm), .flags .R0 .sigLess]
  | 3 => [.op2 .sub r0 r0 (.imm imm), .flags .R0 .less]
  | 4 => [.op2 .xor r0 r0 (.imm imm)]
  | 5 => [.op2 (if insn >>> 26 = 0x10 then .ashr else .lshr) r0 r0 (.imm (imm &&& 0x3F))]
  | 6 => [.op2 .or r0 r0 (.imm imm)]
  | _ => [.op2 .and r0 r0 (.imm imm)]

def emitOpImm (insn : U32) : Emitted :=
  .alu ([emitLoadGuest .R0 (rs1 insn)] ++ emitOpImmAlu insn ++ emitStoreGuest (rd insn) .R0)

def emitOp32 (insn : U32) : Emitted :=
  let loads := [emitLoadGuest .R0 (rs1 insn), emitLoadGuest .R1 (rs2 insn)]
  let fin := [SljitOp.mov .s32 r0 r0] ++ emitStoreGuest (rd insn) .R0
  match (funct3 insn).toNat with
  | 0 => .alu (loads ++ [.op2 (if funct7 insn = 0x20 then .sub32 else .add32) r0 r0 r1] ++ fin)
  | 1 => .alu (loads ++ [.op2 .shl32 r0 r0 r1] ++ fin)
  | 5 => .alu (loads ++ [.op2 (if funct7 insn = 0x20 then .ashr32 else .lshr32) r0 r0 r1] ++ fin)
  | _ => .unsupported loads

def emitOpImm32 (insn : U32) : Emitted :=
  let imm := jitImmI insn
  let loads := [emitLoadGuest .R0 (rs1 insn)]
  let fin := [SljitOp.mov .s32 r0 r0] ++ emitStoreGuest (rd insn) .R0
  match (funct3 insn).toNat with
  | 0 => .alu (loads ++ [.op2 .add32 r0 r0 (.imm imm)] ++ fin)
  | 1 => .alu (loads ++ [.op2 .shl32 r0 r0 (.imm (imm &&& 0x1F))] ++ fin)
  | 5 => .alu (loads ++ [.op2 (if funct7 insn = 0x20 then .ashr32 else .lshr32) r0 r0 (.imm (imm &&& 0x1F))] ++ fin)
  | _ => .unsupported loads

def emitLui (insn : U32) : Emitted :=
  .alu ([.mov .mov r0 (.imm ((insn &&& 0xFFFFF000).signExtend 64))] ++ emitStoreGuest (rd insn) .R0)

def emitAuipc (insn : U32) (pc : U64) : Emitted :=
  .alu ([.mov .mov r0 (.imm (pc + (insn &&& 0xFFFFF000).signExtend 64))] ++ emitStoreGuest (rd insn) .R0)

/-- The JAL offset, assembled in 32 bits and made negative by hand. -/
def jitOffJ (insn : U32) : U32 :=
  let off := ((insn >>> 31) &&& 1) <<< 20 ||| ((insn >>> 21) &&& 0x3FF) <<< 1 ||| ((insn >>> 20) &&& 1) <<< 11 |||
    ((insn >>> 12) &&& 0xFF) <<< 12
  if off &&& 0x100000 ≠ 0 then off - 0x200000 else off

def emitJal (insn : U32) (pc : U64) (compressed : Bool) : Emitted :=
  .last ([.mov .mov r0 (.imm (pc + insnBytes compressed))] ++ emitStoreGuest (rd insn) .R0 ++
    [.mov .mov .pc (.imm (pc + (jitOffJ insn).signExtend 64))])

def emitJalr (insn : U32) (pc : U64) (compressed : Bool) : Emitted :=
  .last ([emitLoadGuest .R1 (rs1 insn), .op2 .add r1 r1 (.imm (jitImmI insn)), .op2 .and r1 r1 (.imm (~~~1)),
    .mov .mov r0 (.imm (pc + insnBytes compressed))] ++ emitStoreGuest (rd insn) .R0 ++ [.mov .mov .pc r1])

def jitOffB (insn : U32) : U32 :=
  let off := ((insn >>> 31) &&& 1) <<< 12 ||| ((insn >>> 7) &&& 1) <<< 11 ||| ((insn >>> 25) &&& 0x3F) <<< 5 |||
    ((insn >>> 8) &&& 0xF) <<< 1
  if off &&& 0x1000 ≠ 0 then off - 0x2000 else off

def branchCond (insn : U32) : Option Cond :=
  match (funct3 insn).toNat with
  | 0 => some .equal
  | 1 => some .notEqual
  | 4 => some .sigLess
  | 5 => some .sigGreaterEqual
  | 6 => some .less
  | 7 => some .greaterEqual
  | _ => none

def emitBranch (insn : U32) (pc : U64) (compressed : Bool) : Emitted :=
  let loads := [emitLoadGuest .R0 (rs1 insn), emitLoadGuest .R1 (rs2 insn)]
  match branchCond insn with
  | none => .unsupported loads
  | some c => .last (loads ++ [.cmp c r0 r1 .taken, .mov .mov .pc (.imm (pc + insnBytes compressed)), .jump .done,
      .label .taken, .mov .mov .pc (.imm (pc + (jitOffB insn).signExtend 64)), .label .done])

/-- The sign or zero extension after a load. -/
def emitLoadExt (insn : U32) : List SljitOp :=
  match (funct3 insn).toNat with
  | 0 => [.mov .s8 r0 r0]
  | 1 => [.mov .s16 r0 r0]
  | 2 => [.mov .s32 r0 r0]
  | 4 => [.mov .u8 r0 r0]
  | 5 => [.mov .u16 r0 r0]
  | 6 => [.mov .u32 r0 r0]
  | _ => []

/-- `1 << (funct3 & 3)`. -/
def jitSize (insn : U32) : U64 := 1 <<< (funct3 insn &&& 3).toNat

def emitLoad (insn : U32) (pc : U64) : Emitted :=
  .call ([.mov .mov .pc (.imm pc)] ++ emitMemoryIcall false (jitSize insn) (rs1 insn) (jitImmI insn) 0 ++
    emitLoadExt insn ++ emitStoreGuest (rd insn) .R0)

def jitImmS (insn : U32) : U32 :=
  let imm := (insn >>> 25) <<< 5 ||| ((insn >>> 7) &&& 0x1F)
  if imm &&& 0x800 ≠ 0 then imm - 0x1000 else imm

def emitStore (insn : U32) (pc : U64) : Emitted :=
  .call ([.mov .mov .pc (.imm pc)] ++
    emitMemoryIcall true (jitSize insn) (rs1 insn) ((jitImmS insn).signExtend 64) (rs2 insn))

def emitFp (insn : U32) (pc : U64) : Emitted :=
  .call [.mov .mov .pc (.imm pc), .mov .mov r0 (.reg .S0), .mov .mov r1 (.imm (insn.setWidth 64)), .icall .fpExec,
    .cmp .notEqual r0 (.imm 0) .epilogue]

/-- The decoder of `jit_compile_block` on an expanded instruction. -/
def emitInsn (insn : U32) (pc : U64) (compressed : Bool) : Emitted :=
  match (opcode insn).toNat with
  | 0x33 => emitOp insn
  | 0x13 => emitOpImm insn
  | 0x3B => emitOp32 insn
  | 0x1B => emitOpImm32 insn
  | 0x37 => emitLui insn
  | 0x17 => emitAuipc insn pc
  | 0x6F => emitJal insn pc compressed
  | 0x67 => emitJalr insn pc compressed
  | 0x63 => emitBranch insn pc compressed
  | 0x03 => emitLoad insn pc
  | 0x23 => emitStore insn pc
  | 0x07 | 0x27 | 0x43 | 0x47 | 0x4B | 0x4F | 0x53 => emitFp insn pc
  | _ => .unsupported []

end PgLinux
