import PgLinux.Compressed
import PgLinux.Operations
import Mathlib.Data.Bool.Basic
/-!
# Disasm — the lines of `vm_disasm` (`disasm_one`)

A line is a mnemonic and its operands.  Every line fits the 80 bytes of its buffer.  An operation is named by a line with
its mnemonic, its registers, its immediate or shift amount, and the address that it jumps to.
-/
namespace PgLinux

/-! ## Lines -/

inductive Arg where
  | reg (r : BitVec 5)
  | freg (r : BitVec 5)
  | dec (v : U64)
  | hex (v : U64)
  | csr (n : BitVec 12)
  | mem (off : U64) (base : BitVec 5)
  | addr (base : BitVec 5)
  | empty
deriving DecidableEq

/-- `column` is where the operands begin, for a mnemonic that leaves room. -/
structure Line where
  mnemonic : String
  column : Nat
  operands : List Arg
deriving DecidableEq

def int_abi : List String :=
  ["zero", "ra", "sp", "gp", "tp", "t0", "t1", "t2", "s0", "s1", "a0", "a1", "a2", "a3", "a4", "a5", "a6", "a7", "s2", "s3",
    "s4", "s5", "s6", "s7", "s8", "s9", "s10", "s11", "t3", "t4", "t5", "t6"]

def abiName (r : BitVec 5) : String := int_abi.getD r.toNat ""

/-- `%0*x`. -/
def hexText (digits n : Nat) : String := String.ofList (List.leftpad digits '0' (Nat.toDigits 16 n))

def Arg.text : Arg → String
  | .reg r => abiName r
  | .freg r => "f" ++ toString r.toNat
  | .dec v => toString v.toInt
  | .hex v => "0x" ++ hexText 1 v.toNat
  | .csr n => "0x" ++ hexText 3 n.toNat
  | .mem off base => toString off.toInt ++ "(" ++ abiName base ++ ")"
  | .addr base => "(" ++ abiName base ++ ")"
  | .empty => ""

def Line.text (l : Line) : String :=
  if l.operands = [] then l.mnemonic
  else l.mnemonic ++ String.ofList (List.replicate (l.column - 1 - l.mnemonic.length) ' ') ++ " " ++
    ", ".intercalate (l.operands.map Arg.text)

namespace Disasm

def sext (val : U32) (bits : Nat) : U64 :=
  let mask : U32 := 1 <<< (bits - 1)
  ((val ^^^ mask) - mask).signExtend 64

/-- `"%-7s "`. -/
def padded (mnemonic : String) (operands : List Arg) : Line := ⟨mnemonic, 8, operands⟩

def immI (insn : U32) : U64 := sext (insn >>> 20) 12
def immS (insn : U32) : U64 := sext ((insn >>> 25) <<< 5 ||| (insn >>> 7 &&& 0x1F)) 12

def offJ (insn : U32) : U64 :=
  let off := ((insn >>> 31) &&& 1) <<< 20 ||| ((insn >>> 21) &&& 0x3FF) <<< 1 ||| ((insn >>> 20) &&& 1) <<< 11 |||
    ((insn >>> 12) &&& 0xFF) <<< 12
  ((off <<< 11).sshiftRight 11).signExtend 64

def offB (insn : U32) : U64 :=
  let off := ((insn >>> 31) &&& 1) <<< 12 ||| ((insn >>> 7) &&& 1) <<< 11 ||| ((insn >>> 25) &&& 0x3F) <<< 5 |||
    ((insn >>> 8) &&& 0xF) <<< 1
  ((off <<< 19).sshiftRight 19).signExtend 64

def branchOps : List String := ["beq", "bne", "?", "?", "blt", "bge", "bltu", "bgeu"]
def loadOps : List String := ["lb", "lh", "lw", "ld", "lbu", "lhu", "lwu", "?"]
def storeOps : List String := ["sb", "sh", "sw", "sd", "?", "?", "?", "?"]
def immOps : List String := ["addi", "slli", "slti", "sltiu", "xori", "srli", "ori", "andi"]
def immwOps : List String := ["addiw", "slliw", "?", "?", "?", "srliw", "?", "?"]
def mops : List String := ["mul", "mulh", "mulhsu", "mulhu", "div", "divu", "rem", "remu"]
def ops_0 : List String := ["add", "sll", "slt", "sltu", "xor", "srl", "or", "and"]
def ops_20 : List String := ["sub", "?", "?", "?", "?", "sra", "?", "?"]
def mopsw : List String := ["mulw", "?", "?", "?", "divw", "divuw", "remw", "remuw"]
def anames : List String :=
  ["amoadd", "amoswap", "lr", "sc", "amoxor", "?", "amoor", "amoand", "amomin", "amomax", "amominu", "amomaxu"]
def csrOps : List String := ["?", "csrrw", "csrrs", "csrrc", "?", "csrrwi", "csrrsi", "csrrci"]
def fmaOps : List String := ["fmadd", "fmsub", "fnmsub", "fnmadd"]

/-- `ops[f3]`. -/
def pick (ops : List String) (f3 : BitVec 3) : String := ops.getD f3.toNat ""

def aluName (f7 : BitVec 7) (f3 : BitVec 3) : String :=
  if f7 = 1 then pick mops f3 else if f7 = 0x20 then pick ops_20 f3 else pick ops_0 f3

def aluwName (f7 : BitVec 7) (f3 : BitVec 3) : String :=
  if f7 = 1 then pick mopsw f3
  else if f7 = 0x20 then (if f3 = 0 then "subw" else "sraw")
  else if f3 = 0 then "addw"
  else "sllw"

/-- The FP opcode. -/
def fpLine (insn : U32) : Line :=
  let rd := rd insn
  let rs1 := rs1 insn
  let rs2 := rs2 insn
  let f3 := funct3 insn
  let double := (funct7 insn).getLsbD 0
  let sfx := if double then ".d" else ".s"
  let regs : List Arg := [.freg rd, .freg rs1, .freg rs2]
  match (funct7 insn).toNat / 4 with
  | 0x00 => ⟨"fadd" ++ sfx, 8, regs⟩
  | 0x01 => ⟨"fsub" ++ sfx, 8, regs⟩
  | 0x02 => ⟨"fmul" ++ sfx, 8, regs⟩
  | 0x03 => ⟨"fdiv" ++ sfx, 8, regs⟩
  | 0x0B => ⟨"fsqrt" ++ sfx, 8, [.freg rd, .freg rs1]⟩
  | 0x04 => ⟨(if f3 = 0 then "fsgnj" else if f3 = 1 then "fsgnjn" else "fsgnjx") ++ sfx, 0, regs⟩
  | 0x05 => ⟨(if f3 = 0 then "fmin" else "fmax") ++ sfx, 0, regs⟩
  | 0x14 => ⟨(if f3 = 2 then "feq" else if f3 = 1 then "flt" else "fle") ++ sfx, 8, [.reg rd, .freg rs1, .freg rs2]⟩
  | 0x18 => ⟨"fcvt.w" ++ (if rs2 ≠ 0 then "u" else "") ++ "." ++ (if double then "d" else "s"), 0, [.reg rd, .freg rs1]⟩
  | 0x1A => ⟨"fcvt" ++ sfx ++ ".w" ++ (if rs2 ≠ 0 then "u" else ""), 0, [.freg rd, .reg rs1]⟩
  | 0x1C => if f3 = 0 then ⟨"fmv.x.w", 0, [.reg rd, .freg rs1]⟩ else ⟨"fclass" ++ sfx, 0, [.reg rd, .freg rs1]⟩
  | 0x1E => ⟨"fmv.w.x", 0, [.freg rd, .reg rs1]⟩
  | 0x08 => ⟨if double then "fcvt.d.s" else "fcvt.s.d", 0, [.freg rd, .freg rs1]⟩
  | _ => ⟨"fp_op   f7=0x" ++ hexText 2 (funct7 insn).toNat ++ " f3=" ++ toString f3.toNat ++ " rd=" ++ toString rd.toNat ++
      " rs1=" ++ toString rs1.toNat ++ " rs2=" ++ toString rs2.toNat, 0, []⟩

def amoLine (insn : U32) : Line :=
  let op := (funct7 insn >>> 2).toNat
  let w := if funct3 insn = 2 then ".w" else ".d"
  if op = 2 then ⟨"lr" ++ w, 9, [.reg (rd insn), .addr (rs1 insn)]⟩
  else if op = 3 then ⟨"sc" ++ w, 9, [.reg (rd insn), .reg (rs2 insn), .addr (rs1 insn)]⟩
  else ⟨anames.getD op "amo?" ++ w, 0, [.reg (rd insn), .reg (rs2 insn), .addr (rs1 insn)]⟩

def systemLine (insn : U32) : Line :=
  if insn = 0x00000073 then ⟨"ecall", 0, []⟩
  else if insn = 0x00100073 then ⟨"ebreak", 0, []⟩
  else if insn = 0x30200073 then ⟨"mret", 0, []⟩
  else if insn = 0x10200073 then ⟨"sret", 0, []⟩
  else if insn = 0x10500073 then ⟨"wfi", 0, []⟩
  else if funct7 insn = 0x09 then ⟨"sfence.vma", 0, [.reg (rs1 insn), .reg (rs2 insn)]⟩
  else padded (pick csrOps (funct3 insn))
    [.reg (rd insn), .csr (insn.extractLsb' 20 12), if 4 ≤ funct3 insn then .empty else .reg (rs1 insn)]

end Disasm

open Disasm in
def disasmOne (insn : U32) (pc : U64) : Line :=
  let f3 := funct3 insn
  let f7 := funct7 insn
  match (opcode insn).toNat with
  | 0x37 => padded "lui" [.reg (rd insn), .hex ((insn >>> 12).setWidth 64)]
  | 0x17 => padded "auipc" [.reg (rd insn), .hex ((insn >>> 12).setWidth 64)]
  | 0x6F => padded "jal" [.reg (rd insn), .hex (pc + offJ insn)]
  | 0x67 => padded "jalr" [.reg (rd insn), .mem (Disasm.immI insn) (rs1 insn)]
  | 0x63 => padded (pick branchOps f3) [.reg (rs1 insn), .reg (rs2 insn), .hex (pc + offB insn)]
  | 0x03 => padded (pick loadOps f3) [.reg (rd insn), .mem (Disasm.immI insn) (rs1 insn)]
  | 0x23 => padded (pick storeOps f3) [.reg (rs2 insn), .mem (Disasm.immS insn) (rs1 insn)]
  | 0x13 =>
    let imm := if f3 = 1 ∨ f3 = 5 then (rs2 insn).setWidth 64 else Disasm.immI insn
    padded (pick immOps f3) [.reg (rd insn), .reg (rs1 insn), .dec imm]
  | 0x1B => padded (pick immwOps f3) [.reg (rd insn), .reg (rs1 insn), .dec (Disasm.immI insn)]
  | 0x33 => padded (aluName f7 f3) [.reg (rd insn), .reg (rs1 insn), .reg (rs2 insn)]
  | 0x3B => padded (aluwName f7 f3) [.reg (rd insn), .reg (rs1 insn), .reg (rs2 insn)]
  | 0x07 => padded (if f3 = 2 then "flw" else "fld") [.freg (rd insn), .mem (Disasm.immI insn) (rs1 insn)]
  | 0x27 => padded (if f3 = 2 then "fsw" else "fsd") [.freg (rs2 insn), .mem (Disasm.immS insn) (rs1 insn)]
  | 0x53 => fpLine insn
  | 0x43 | 0x47 | 0x4B | 0x4F =>
    ⟨fmaOps.getD (((opcode insn).toNat - 0x43) / 4) "" ++ (if insn.getLsbD 25 then ".d" else ".s"), 0,
      [.freg (rd insn), .freg (rs1 insn), .freg (rs2 insn), .freg (rs3 insn)]⟩
  | 0x2F => amoLine insn
  | 0x73 => systemLine insn
  | 0x0F => ⟨"fence", 0, []⟩
  | _ => ⟨"unknown opcode=0x" ++ hexText 2 (opcode insn).toNat ++ " insn=0x" ++ hexText 8 insn.toNat, 0, []⟩

/-! ## The line of an operation -/

def BranchOp.name : BranchOp → String
  | .beq => "beq"
  | .bne => "bne"
  | .blt => "blt"
  | .bge => "bge"
  | .bltu => "bltu"
  | .bgeu => "bgeu"

def LoadOp.name : LoadOp → String
  | .lb => "lb"
  | .lh => "lh"
  | .lw => "lw"
  | .ld => "ld"
  | .lbu => "lbu"
  | .lhu => "lhu"
  | .lwu => "lwu"

def StoreOp.name : StoreOp → String
  | .sb => "sb"
  | .sh => "sh"
  | .sw => "sw"
  | .sd => "sd"

def ImmOp.name : ImmOp → String
  | .addi => "addi"
  | .slti => "slti"
  | .sltiu => "sltiu"
  | .xori => "xori"
  | .ori => "ori"
  | .andi => "andi"

def ShiftOp.name : ShiftOp → String
  | .sll => "sll"
  | .srl => "srl"
  | .sra => "sra"

def AluOp.name : AluOp → String
  | .add => "add"
  | .sub => "sub"
  | .shift op => op.name
  | .slt => "slt"
  | .sltu => "sltu"
  | .xor => "xor"
  | .or => "or"
  | .and => "and"
  | .mul => "mul"
  | .mulh => "mulh"
  | .mulhsu => "mulhsu"
  | .mulhu => "mulhu"
  | .div => "div"
  | .divu => "divu"
  | .rem => "rem"
  | .remu => "remu"

def WordOp.name : WordOp → String
  | .addw => "addw"
  | .subw => "subw"
  | .shift op => op.name ++ "w"
  | .mulw => "mulw"
  | .divw => "divw"
  | .divuw => "divuw"
  | .remw => "remw"
  | .remuw => "remuw"

def AmoOp.name : AmoOp → String
  | .swap => "amoswap"
  | .add => "amoadd"
  | .xor => "amoxor"
  | .and => "amoand"
  | .or => "amoor"
  | .min => "amomin"
  | .max => "amomax"
  | .minu => "amominu"
  | .maxu => "amomaxu"

def widthSuffix (double : Bool) : String := if double then ".d" else ".w"

def Operation.name : Operation → String
  | .lui .. => "lui"
  | .auipc .. => "auipc"
  | .jal .. => "jal"
  | .jalr .. => "jalr"
  | .branch op .. => op.name
  | .load op .. => op.name
  | .store op .. => op.name
  | .aluImm op .. => op.name
  | .shift op .. => op.name ++ "i"
  | .alu op .. => op.name
  | .addiw .. => "addiw"
  | .shiftw op .. => op.name ++ "iw"
  | .aluw op .. => op.name
  | .lr double .. => "lr" ++ widthSuffix double
  | .sc double .. => "sc" ++ widthSuffix double
  | .amo op double .. => op.name ++ widthSuffix double
  | .fence => "fence"
  | .fenceI => "fence.i"

/-- The operands of an instruction at `pc`, in the order of assembly language. -/
def Operation.operands (pc : U64) : Operation → List Arg
  | .lui rd imm | .auipc rd imm => [.reg rd, .hex (imm.setWidth 64)]
  | .jal rd off => [.reg rd, .hex (pc + off.signExtend 64)]
  | .jalr rd rs1 imm => [.reg rd, .mem (imm.signExtend 64) rs1]
  | .branch _ rs1 rs2 off => [.reg rs1, .reg rs2, .hex (pc + off.signExtend 64)]
  | .load _ rd rs1 imm => [.reg rd, .mem (imm.signExtend 64) rs1]
  | .store _ rs1 rs2 imm => [.reg rs2, .mem (imm.signExtend 64) rs1]
  | .aluImm _ rd rs1 imm => [.reg rd, .reg rs1, .dec (imm.signExtend 64)]
  | .shift _ rd rs1 shamt => [.reg rd, .reg rs1, .dec (shamt.setWidth 64)]
  | .alu _ rd rs1 rs2 => [.reg rd, .reg rs1, .reg rs2]
  | .addiw rd rs1 imm => [.reg rd, .reg rs1, .dec (imm.signExtend 64)]
  | .shiftw _ rd rs1 shamt => [.reg rd, .reg rs1, .dec (shamt.setWidth 64)]
  | .aluw _ rd rs1 rs2 => [.reg rd, .reg rs1, .reg rs2]
  | .lr _ rd rs1 => [.reg rd, .addr rs1]
  | .sc _ rd rs1 rs2 => [.reg rd, .reg rs2, .addr rs1]
  | .amo _ _ rd rs1 rs2 => [.reg rd, .reg rs2, .addr rs1]
  | .fence | .fenceI => []

/-- **The line names the operation**, with its registers, immediate, shift amount and target. -/
structure Line.Names (l : Line) (op : Operation) (pc : U64) : Prop where
  mnemonic : l.mnemonic = op.name
  operands : l.operands = op.operands pc

/-- The words whose tables and fields `disasm_one` has right. -/
def NamedRight (insn : U32) : Prop :=
  let f3 := funct3 insn
  let f7 := funct7 insn
  match (opcode insn).toNat with
  | 0x13 => (f3 = 1 → insn.getLsbD 25 = false) ∧ (f3 = 5 → f7 = 0)
  | 0x1B => f3 = 0 ∨ f7 = 0
  | 0x33 => f7 = 0x20 → f3 = 0 ∨ f3 = 5
  | 0x3B => f7 = 1 ∨ f3 = 0 ∨ (f3 = 1 ∧ f7 ≠ 0x20) ∨ (f3 = 5 ∧ f7 = 0x20)
  | 0x2F => (f3 = 2 ∨ f3 = 3) ∧ funct5 insn ≤ 4
  | 0x0F => f3 ≠ 1
  | _ => True

/-! ## Fields, as the disassembler reads them -/

theorem disasm_immI (insn : U32) : Disasm.immI insn = immI insn := by
  have hfield : insn >>> 20 = (insn.extractLsb' 20 12).setWidth 32 := by
    apply BitVec.eq_of_getLsbD_eq
    intro i hi
    simp only [BitVec.getLsbD_ushiftRight, BitVec.getLsbD_setWidth, BitVec.getLsbD_extractLsb']
    grind
  unfold Disasm.immI immI
  rw [hfield]
  generalize (insn.extractLsb' 20 12 : BitVec 12) = imm
  revert imm
  decide +kernel

theorem disasm_immS (insn : U32) : Disasm.immS insn = immS insn := by
  have hfield : (insn >>> 25) <<< 5 ||| (insn >>> 7 &&& 0x1F) =
      (insn.extractLsb' 25 7 ++ insn.extractLsb' 7 5 : BitVec 12).setWidth 32 := by
    rw [shift_mask _ 7 5 0x1F rfl]
    apply BitVec.eq_of_getLsbD_eq
    intro i hi
    simp only [BitVec.getLsbD_or, BitVec.getLsbD_shiftLeft, BitVec.getLsbD_ushiftRight, BitVec.getLsbD_setWidth,
      BitVec.getLsbD_append, BitVec.getLsbD_extractLsb']
    grind
  unfold Disasm.immS immS
  rw [hfield]
  generalize (insn.extractLsb' 25 7 ++ insn.extractLsb' 7 5 : BitVec 12) = imm
  revert imm
  decide +kernel

/-- `(off << n) >> n` extends an offset of `32 - n` bits. -/
theorem shift_back {w n : Nat} (hw : w + n = 32) (h : 0 < w) (v : BitVec w) :
    ((v.setWidth 32 <<< n).sshiftRight n : U32).signExtend 64 = v.signExtend 64 := by
  have hword : (v.setWidth 32 <<< n).sshiftRight n = v.signExtend 32 := by
    apply BitVec.eq_of_getLsbD_eq
    intro i hi
    rw [BitVec.getLsbD_sshiftRight, BitVec.getLsbD_signExtend]
    simp only [BitVec.getLsbD_shiftLeft, BitVec.getLsbD_setWidth, BitVec.msb_eq_getLsbD_last]
    grind
  apply BitVec.eq_of_toInt_eq
  rw [hword, BitVec.toInt_signExtend_of_le (by decide), BitVec.toInt_signExtend_of_le (by omega),
    BitVec.toInt_signExtend_of_le (by omega)]

theorem disasm_offJ (insn : U32) : Disasm.offJ insn = immJ insn := by
  unfold Disasm.offJ immJ
  rw [shift_mask _ 31 1 1 rfl, shift_mask _ 21 10 0x3FF rfl, shift_mask _ 20 1 1 rfl, shift_mask _ 12 8 0xFF rfl]
  generalize (insn.extractLsb' 31 1 : BitVec 1) = a
  generalize (insn.extractLsb' 12 8 : BitVec 8) = b
  generalize (insn.extractLsb' 20 1 : BitVec 1) = d
  generalize (insn.extractLsb' 21 10 : BitVec 10) = e
  have hfields : a.setWidth 32 <<< 20 ||| e.setWidth 32 <<< 1 ||| d.setWidth 32 <<< 11 ||| b.setWidth 32 <<< 12 =
      ((a ++ b ++ d ++ e ++ 0#1 : BitVec 21).setWidth 32 : U32) := by
    apply BitVec.eq_of_getLsbD_eq
    intro i hi
    simp only [BitVec.getLsbD_or, BitVec.getLsbD_shiftLeft, BitVec.getLsbD_setWidth, BitVec.getLsbD_append]
    grind
  rw [← shift_back (w := 21) (n := 11) rfl (by decide), ← hfields]

theorem disasm_offB (insn : U32) : Disasm.offB insn = immB insn := by
  unfold Disasm.offB immB
  rw [shift_mask _ 31 1 1 rfl, shift_mask _ 7 1 1 rfl, shift_mask _ 25 6 0x3F rfl, shift_mask _ 8 4 0xF rfl]
  generalize (insn.extractLsb' 31 1 : BitVec 1) = a
  generalize (insn.extractLsb' 7 1 : BitVec 1) = b
  generalize (insn.extractLsb' 25 6 : BitVec 6) = d
  generalize (insn.extractLsb' 8 4 : BitVec 4) = e
  have hfields : a.setWidth 32 <<< 12 ||| b.setWidth 32 <<< 11 ||| d.setWidth 32 <<< 5 ||| e.setWidth 32 <<< 1 =
      ((a ++ b ++ d ++ e ++ 0#1 : BitVec 13).setWidth 32 : U32) := by
    apply BitVec.eq_of_getLsbD_eq
    intro i hi
    simp only [BitVec.getLsbD_or, BitVec.getLsbD_shiftLeft, BitVec.getLsbD_setWidth, BitVec.getLsbD_append]
    grind
  rw [← shift_back (w := 13) (n := 19) rfl (by decide), ← hfields]

theorem disasm_immU (insn : U32) : (insn >>> 12).setWidth 64 = (insn.extractLsb' 12 20).setWidth 64 := by
  apply BitVec.eq_of_getLsbD_eq
  intro i hi
  simp only [BitVec.getLsbD_ushiftRight, BitVec.getLsbD_setWidth, BitVec.getLsbD_extractLsb']
  grind

/-- Five bits of the shift amount are all of it when bit 25 is clear. -/
theorem shamt_eq_iff (insn : U32) :
    (rs2 insn).setWidth 64 = (insn.extractLsb' 20 6).setWidth 64 ↔ insn.getLsbD 25 = false := by
  constructor
  · intro h
    have hbit := congrArg (·.getLsbD 5) h
    simpa [rs2, BitVec.getLsbD_setWidth, BitVec.getLsbD_extractLsb'] using hbit
  · intro h
    apply BitVec.eq_of_getLsbD_eq
    intro i hi
    simp only [rs2, BitVec.getLsbD_setWidth, BitVec.getLsbD_extractLsb']
    grind

theorem immI_eq_shamt_iff (insn : U32) : immI insn = (rs2 insn).setWidth 64 ↔ funct7 insn = 0 := by
  have hfields : insn.extractLsb' 20 12 = (funct7 insn ++ rs2 insn : BitVec 12) := by
    apply BitVec.eq_of_getLsbD_eq
    intro i hi
    simp only [funct7, rs2, BitVec.getLsbD_append, BitVec.getLsbD_extractLsb']
    grind
  unfold immI
  rw [hfields]
  generalize funct7 insn = a
  generalize rs2 insn = b
  revert a b
  decide +kernel

theorem funct7_zero_iff (insn : U32) : funct7 insn = 0 ↔ funct7 insn >>> 1 = 0 ∧ insn.getLsbD 25 = false := by
  have hbit : insn.getLsbD 25 = (funct7 insn).getLsbD 0 := by simp [funct7]
  rw [hbit]
  generalize funct7 insn = f7
  revert f7
  decide

/-! ## Tables -/

open Disasm

theorem branch_named (f3 : BitVec 3) : ∀ op ∈ BranchOp.ofFunct3 f3, pick branchOps f3 = op.name := by
  revert f3
  decide

theorem load_named (f3 : BitVec 3) : ∀ op ∈ LoadOp.ofFunct3 f3, pick loadOps f3 = op.name := by
  revert f3
  decide

theorem store_named (f3 : BitVec 3) : ∀ op ∈ StoreOp.ofFunct3 f3, pick storeOps f3 = op.name := by
  revert f3
  decide

theorem alu_named_iff (f7 : BitVec 7) (f3 : BitVec 3) :
    aluName f7 f3 = (AluOp.ofFunct f7 f3).name ↔ (f7 = 0x20 → f3 = 0 ∨ f3 = 5) := by
  revert f7 f3
  decide +kernel

theorem aluw_named_iff (f7 : BitVec 7) (f3 : BitVec 3) : ∀ op ∈ WordOp.ofFunct f7 f3,
    aluwName f7 f3 = op.name ↔ f7 = 1 ∨ f3 = 0 ∨ (f3 = 1 ∧ f7 ≠ 0x20) ∨ (f3 = 5 ∧ f7 = 0x20) := by
  revert f7 f3
  decide +kernel

/-- `".w"` is printed for a funct3 of 2 only, and 64 bits are read for one of 3 only. -/
theorem suffix_iff (f3 : BitVec 3) (m : String) :
    m ++ (if f3 = 2 then ".w" else ".d") = m ++ widthSuffix (decide (f3 = 3)) ↔ f3 = 2 ∨ f3 = 3 := by
  rw [String.append_right_inj]
  revert f3
  decide

/-- The table is indexed with funct5 itself: it is right up to 4. -/
theorem amo_named_iff (f7 : BitVec 7) (f3 : BitVec 3) : ∀ op ∈ AmoOp.ofFunct5 (f7.extractLsb' 2 5),
    anames.getD (f7 >>> 2).toNat "amo?" ++ (if f3 = 2 then ".w" else ".d") = op.name ++ widthSuffix (decide (f3 = 3)) ↔
      (f3 = 2 ∨ f3 = 3) ∧ (f7.extractLsb' 2 5 : BitVec 5) ≤ 4 := by
  revert f7 f3
  decide +kernel

/-! ## The lines of the opcodes -/

section Named

variable {insn : U32} {op : Operation} (pc : U64)

theorem names_iff_of_right {l : Line} {right : Prop} (hright : right) (hname : l.mnemonic = op.name)
    (hoperands : l.operands = op.operands pc) : l.Names op pc ↔ right := ⟨fun _ => hright, fun _ => ⟨hname, hoperands⟩⟩

theorem names_iff_mnemonic {l : Line} {right : Prop} (hoperands : l.operands = op.operands pc)
    (hname : l.mnemonic = op.name ↔ right) : l.Names op pc ↔ right :=
  ⟨fun h => hname.1 h.mnemonic, fun h => ⟨hname.2 h, hoperands⟩⟩

theorem named_lui (h : (opcode insn).toNat = 0x37) (hop : performed insn = some op) :
    (disasmOne insn pc).Names op pc ↔ NamedRight insn := by
  unfold performed at hop
  rw [h] at hop
  cases hop
  unfold disasmOne NamedRight
  rw [h]
  refine names_iff_of_right pc trivial rfl ?_
  exact congrArg (fun v => [Arg.reg (rd insn), .hex v]) (disasm_immU insn)

theorem named_auipc (h : (opcode insn).toNat = 0x17) (hop : performed insn = some op) :
    (disasmOne insn pc).Names op pc ↔ NamedRight insn := by
  unfold performed at hop
  rw [h] at hop
  cases hop
  unfold disasmOne NamedRight
  rw [h]
  refine names_iff_of_right pc trivial rfl ?_
  exact congrArg (fun v => [Arg.reg (rd insn), .hex v]) (disasm_immU insn)

theorem named_jal (h : (opcode insn).toNat = 0x6F) (hop : performed insn = some op) :
    (disasmOne insn pc).Names op pc ↔ NamedRight insn := by
  unfold performed at hop
  rw [h] at hop
  cases hop
  unfold disasmOne NamedRight
  rw [h]
  refine names_iff_of_right pc trivial rfl ?_
  exact congrArg (fun v => [Arg.reg (rd insn), .hex (pc + v)]) (disasm_offJ insn)

theorem named_jalr (h : (opcode insn).toNat = 0x67) (hop : performed insn = some op) :
    (disasmOne insn pc).Names op pc ↔ NamedRight insn := by
  unfold performed at hop
  rw [h] at hop
  cases hop
  unfold disasmOne NamedRight
  rw [h]
  refine names_iff_of_right pc trivial rfl ?_
  exact congrArg (fun v => [Arg.reg (rd insn), .mem v (rs1 insn)]) (disasm_immI insn)

theorem named_branch (h : (opcode insn).toNat = 0x63) (hop : performed insn = some op) :
    (disasmOne insn pc).Names op pc ↔ NamedRight insn := by
  unfold performed at hop
  rw [h] at hop
  obtain ⟨o, ho, rfl⟩ := Option.map_eq_some_iff.1 hop
  unfold disasmOne NamedRight
  rw [h]
  refine names_iff_of_right pc trivial (branch_named _ o ho) ?_
  exact congrArg (fun v => [Arg.reg (rs1 insn), .reg (rs2 insn), .hex (pc + v)]) (disasm_offB insn)

theorem named_load (h : (opcode insn).toNat = 0x03) (hop : performed insn = some op) :
    (disasmOne insn pc).Names op pc ↔ NamedRight insn := by
  unfold performed at hop
  rw [h] at hop
  obtain ⟨o, ho, rfl⟩ := Option.map_eq_some_iff.1 hop
  unfold disasmOne NamedRight
  rw [h]
  refine names_iff_of_right pc trivial (load_named _ o ho) ?_
  exact congrArg (fun v => [Arg.reg (rd insn), .mem v (rs1 insn)]) (disasm_immI insn)

theorem named_store (h : (opcode insn).toNat = 0x23) (hop : performed insn = some op) :
    (disasmOne insn pc).Names op pc ↔ NamedRight insn := by
  unfold performed at hop
  rw [h] at hop
  obtain ⟨o, ho, rfl⟩ := Option.map_eq_some_iff.1 hop
  unfold disasmOne NamedRight
  rw [h]
  refine names_iff_of_right pc trivial (store_named _ o ho) ?_
  exact congrArg (fun v => [Arg.reg (rs2 insn), .mem v (rs1 insn)]) (disasm_immS insn)

/-- An immediate that is no shift amount. -/
theorem named_aluImm {o : ImmOp} (h : (opcode insn).toNat = 0x13) (h1 : funct3 insn ≠ 1) (h5 : funct3 insn ≠ 5)
    (hname : pick immOps (funct3 insn) = o.name) :
    (disasmOne insn pc).Names (.aluImm o (rd insn) (rs1 insn) (insn.extractLsb' 20 12)) pc ↔ NamedRight insn := by
  unfold disasmOne NamedRight
  rw [h]
  dsimp only
  rw [if_neg fun hshift => hshift.elim h1 h5, disasm_immI]
  exact names_iff_of_right pc ⟨fun h => absurd h h1, fun h => absurd h h5⟩ hname rfl

/-- Of a shift the line has five bits of the shift amount. -/
theorem dec_shamt_iff (insn : U32) : [Arg.reg (rd insn), .reg (rs1 insn), .dec ((rs2 insn).setWidth 64)] =
    [Arg.reg (rd insn), .reg (rs1 insn), .dec ((insn.extractLsb' 20 6 : BitVec 6).setWidth 64)] ↔ insn.getLsbD 25 = false := by
  rw [← shamt_eq_iff]
  simp

theorem named_imm (h : (opcode insn).toNat = 0x13) (hop : performed insn = some op) :
    (disasmOne insn pc).Names op pc ↔ NamedRight insn := by
  unfold performed at hop
  rw [h] at hop
  rcases funct3_cases (funct3 insn) with h3 | h3 | h3 | h3 | h3 | h3 | h3 | h3
  case inr.inl =>
    rw [h3] at hop
    cases hop
    unfold disasmOne NamedRight
    rw [h, h3]
    constructor
    · intro hnames
      exact ⟨fun _ => (dec_shamt_iff insn).1 hnames.operands, fun h => absurd h (by decide)⟩
    · intro hright
      exact ⟨rfl, (dec_shamt_iff insn).2 (hright.1 rfl)⟩
  case inr.inr.inr.inr.inr.inl =>
    rw [h3] at hop
    cases hop
    unfold disasmOne NamedRight
    rw [h, h3]
    by_cases h7 : funct7 insn >>> 1 ≠ 0
    · rw [if_pos h7]
      constructor
      · intro hnames
        exact absurd hnames.mnemonic (show ("srli" : String) ≠ "srai" by decide)
      · intro hright
        exact absurd ((funct7_zero_iff insn).1 (hright.2 rfl)).1 h7
    · rw [if_neg h7]
      constructor
      · intro hnames
        have hbit := (dec_shamt_iff insn).1 hnames.operands
        exact ⟨fun h => absurd h (by decide), fun _ => (funct7_zero_iff insn).2 ⟨not_not.1 h7, hbit⟩⟩
      · intro hright
        exact ⟨rfl, (dec_shamt_iff insn).2 ((funct7_zero_iff insn).1 (hright.2 rfl)).2⟩
  all_goals
    rw [h3] at hop
    cases hop
    exact named_aluImm pc h (h3 ▸ by decide) (h3 ▸ by decide) (h3 ▸ rfl)

theorem named_alu (h : (opcode insn).toNat = 0x33) (hop : performed insn = some op) :
    (disasmOne insn pc).Names op pc ↔ NamedRight insn := by
  unfold performed at hop
  rw [h] at hop
  cases hop
  unfold disasmOne NamedRight
  rw [h]
  exact names_iff_mnemonic pc rfl (alu_named_iff _ _)

theorem named_aluw (h : (opcode insn).toNat = 0x3B) (hop : performed insn = some op) :
    (disasmOne insn pc).Names op pc ↔ NamedRight insn := by
  unfold performed at hop
  rw [h] at hop
  obtain ⟨o, ho, rfl⟩ := Option.map_eq_some_iff.1 hop
  unfold disasmOne NamedRight
  rw [h]
  exact names_iff_mnemonic pc rfl (aluw_named_iff _ _ o ho)

/-- Of a shift of 32 bits the line has the whole immediate. -/
theorem dec_immI_iff (insn : U32) : [Arg.reg (rd insn), .reg (rs1 insn), .dec (Disasm.immI insn)] =
    [Arg.reg (rd insn), .reg (rs1 insn), .dec ((rs2 insn).setWidth 64)] ↔ funct7 insn = 0 := by
  rw [← immI_eq_shamt_iff, disasm_immI]
  simp

theorem named_immw (h : (opcode insn).toNat = 0x1B) (hop : performed insn = some op) :
    (disasmOne insn pc).Names op pc ↔ NamedRight insn := by
  unfold performed at hop
  rw [h] at hop
  unfold disasmOne NamedRight
  rw [h]
  rcases funct3_cases (funct3 insn) with h3 | h3 | h3 | h3 | h3 | h3 | h3 | h3
  case inl =>
    rw [h3] at hop ⊢
    cases hop
    refine names_iff_of_right pc (.inl rfl) rfl ?_
    exact congrArg (fun v => [Arg.reg (rd insn), .reg (rs1 insn), .dec v]) (disasm_immI insn)
  case inr.inl =>
    rw [h3] at hop ⊢
    cases hop
    constructor
    · intro hnames
      exact .inr ((dec_immI_iff insn).1 hnames.operands)
    · intro hright
      exact ⟨rfl, (dec_immI_iff insn).2 (hright.resolve_left (by decide))⟩
  case inr.inr.inr.inr.inr.inl =>
    rw [h3] at hop ⊢
    cases hop
    by_cases h7 : funct7 insn = 0x20
    · rw [if_pos h7]
      constructor
      · intro hnames
        exact absurd hnames.mnemonic (show ("srliw" : String) ≠ "sraiw" by decide)
      · intro hright
        exact absurd (h7.symm.trans (hright.resolve_left (by decide))) (by decide)
    · rw [if_neg h7]
      constructor
      · intro hnames
        exact .inr ((dec_immI_iff insn).1 hnames.operands)
      · intro hright
        exact ⟨rfl, (dec_immI_iff insn).2 (hright.resolve_left (by decide))⟩
  all_goals
    rw [h3] at hop
    cases hop

theorem named_amo (h : (opcode insn).toNat = 0x2F) (hop : performed insn = some op) :
    (disasmOne insn pc).Names op pc ↔ NamedRight insn := by
  have hline : disasmOne insn pc = amoLine insn := by
    unfold disasmOne
    rw [h]
    rfl
  have hright : NamedRight insn ↔ (funct3 insn = 2 ∨ funct3 insn = 3) ∧ funct5 insn ≤ 4 := by
    unfold NamedRight
    rw [h]
    exact Iff.rfl
  have hindex : (funct7 insn >>> 2).toNat = (funct5 insn).toNat := by
    unfold funct5
    generalize funct7 insn = f7
    revert f7
    decide
  have hperformed : performedAmo insn = some op := by
    unfold performed at hop
    rw [h] at hop
    exact hop
  unfold performedAmo at hperformed
  unfold amoLine at hline
  dsimp only at hperformed hline
  rw [hline, hright]
  by_cases hlr : funct5 insn = 0x02
  · rw [if_pos hlr] at hperformed
    cases hperformed
    rw [if_pos (by rw [hindex, hlr]; rfl), hlr]
    refine names_iff_mnemonic pc rfl ((suffix_iff _ "lr").trans ?_)
    exact ⟨fun h => ⟨h, by decide⟩, And.left⟩
  by_cases hsc : funct5 insn = 0x03
  · rw [if_neg hlr, if_pos hsc] at hperformed
    cases hperformed
    rw [if_neg (by rw [hindex, hsc]; decide), if_pos (by rw [hindex, hsc]; rfl), hsc]
    refine names_iff_mnemonic pc rfl ((suffix_iff _ "sc").trans ?_)
    exact ⟨fun h => ⟨h, by decide⟩, And.left⟩
  rw [if_neg hlr, if_neg hsc] at hperformed
  obtain ⟨o, ho, rfl⟩ := Option.map_eq_some_iff.1 hperformed
  have hlr' : (funct7 insn >>> 2).toNat ≠ 2 := by
    rw [hindex]
    exact fun h => hlr (BitVec.eq_of_toNat_eq h)
  have hsc' : (funct7 insn >>> 2).toNat ≠ 3 := by
    rw [hindex]
    exact fun h => hsc (BitVec.eq_of_toNat_eq h)
  rw [if_neg hlr', if_neg hsc']
  exact names_iff_mnemonic pc rfl (amo_named_iff _ _ o ho)

theorem named_fence (h : (opcode insn).toNat = 0x0F) (hop : performed insn = some op) :
    (disasmOne insn pc).Names op pc ↔ NamedRight insn := by
  unfold performed at hop
  rw [h] at hop
  cases hop
  unfold disasmOne NamedRight
  rw [h]
  by_cases h1 : funct3 insn = 1
  · rw [if_pos h1]
    exact ⟨fun hnames => absurd hnames.mnemonic (show ("fence" : String) ≠ "fence.i" by decide), fun hright => absurd h1 hright⟩
  · rw [if_neg h1]
    exact names_iff_of_right pc h1 rfl rfl

theorem named_iff (h : (opcode insn).toNat ∈ integerOpcodes) (hop : performed insn = some op) :
    (disasmOne insn pc).Names op pc ↔ NamedRight insn := by
  simp only [integerOpcodes, List.mem_cons, List.not_mem_nil, or_false] at h
  rcases h with h | h | h | h | h | h | h | h | h | h | h | h | h
  · exact named_lui pc h hop
  · exact named_auipc pc h hop
  · exact named_jal pc h hop
  · exact named_jalr pc h hop
  · exact named_branch pc h hop
  · exact named_load pc h hop
  · exact named_store pc h hop
  · exact named_imm pc h hop
  · exact named_alu pc h hop
  · exact named_immw pc h hop
  · exact named_aluw pc h hop
  · exact named_amo pc h hop
  · exact named_fence pc h hop

end Named

/-! ## The disassembler and the interpreter -/

section Interpreter

variable [NetDevice] [HostFp]

/-- The interpreter gets through the word, in some machine. -/
def GetsThrough (insn : U32) (pc : U64) : Prop := ∃ nextPc c next d, execInsn insn pc nextPc c = .ok next d

/-- **Of every word that is executed, the line names the operation that the interpreter performs** exactly when the
disassembler has it right. -/
theorem disasmOne_names_iff (insn : U32) (pc : U64) (hscope : (opcode insn).toNat ∈ integerOpcodes)
    (hexec : GetsThrough insn pc) : ∃ op, performed insn = some op ∧
      (∀ nextPc c, execInsn insn pc nextPc c = op.run pc nextPc c) ∧
      ((disasmOne insn pc).Names op pc ↔ NamedRight insn) := by
  obtain ⟨nextPc, c, next, d, hok⟩ := hexec
  cases hop : performed insn with
  | none =>
    have hnever := performs pc nextPc c hscope
    rw [hop] at hnever
    exact absurd hok (hnever next d)
  | some op =>
    refine ⟨op, rfl, fun nextPc c => ?_, named_iff pc hscope hop⟩
    have hperforms := performs pc nextPc c hscope
    rwa [hop] at hperforms

end Interpreter

/-! ## A shift -/

section Words

local instance disasmNet : NetDevice := NetDevice.silent
local instance disasmFp : HostFp := HostFp.zero

theorem getsThrough_imm {insn : U32} (h : (opcode insn).toNat = 0x13) (pc : U64) (c : Cpu) : GetsThrough insn pc := by
  refine ⟨0, c, 0, c.wr (rd insn) (aluOpImm insn (c.x (rs1 insn))), ?_⟩
  unfold execInsn
  rw [Prog.get_bind_apply, h]
  rfl

/-- `srli ra, ra, 1`. -/
theorem disasmOne_names_srli : ∃ op, performed 0x0010D093 = some op ∧
    (∀ nextPc c, execInsn 0x0010D093 0 nextPc c = op.run 0 nextPc c) ∧
    ((disasmOne 0x0010D093 0).Names op 0 ↔ NamedRight 0x0010D093) :=
  disasmOne_names_iff 0x0010D093 0 (by decide) (getsThrough_imm rfl 0 (amoCpu 0))

/-- **`srai ra, ra, 1` is printed as `srli ra, ra, 1`.** -/
theorem not_disasmOne_names_srai : GetsThrough 0x4010D093 0 ∧ performed 0x4010D093 = some (.shift .sra 1 1 1) ∧
    disasmOne 0x4010D093 0 = disasmOne 0x0010D093 0 ∧ ¬ (disasmOne 0x4010D093 0).Names (.shift .sra 1 1 1) 0 := by
  refine ⟨getsThrough_imm rfl 0 (amoCpu 0), by decide, by decide, fun h => ?_⟩
  exact absurd h.mnemonic (by decide)

example : (disasmOne 0x4010D093 0).text = "srli    ra, ra, 1" := by decide

end Words

end PgLinux
