import PgLinux.Virtio
/-!
# Decode — instruction fields and the compressed expansions

The fields are those of `rv64_step`.  The interpreter and `sljit_uncompress` expand 16-bit instructions with one text;
they differ only in how C.BEQZ and C.BNEZ sign-extend their offset.
-/
namespace PgLinux

/-! ## 32-bit fields -/

def opcode (insn : U32) : BitVec 7 := insn.extractLsb' 0 7
def rd (insn : U32) : BitVec 5 := insn.extractLsb' 7 5
def funct3 (insn : U32) : BitVec 3 := insn.extractLsb' 12 3
def rs1 (insn : U32) : BitVec 5 := insn.extractLsb' 15 5
def rs2 (insn : U32) : BitVec 5 := insn.extractLsb' 20 5
def rs3 (insn : U32) : BitVec 5 := insn.extractLsb' 27 5
def funct7 (insn : U32) : BitVec 7 := insn.extractLsb' 25 7

def immI (insn : U32) : U64 := (insn.extractLsb' 20 12).signExtend 64
def immS (insn : U32) : U64 := (insn.extractLsb' 25 7 ++ insn.extractLsb' 7 5 : BitVec 12).signExtend 64
def immB (insn : U32) : U64 :=
  (insn.extractLsb' 31 1 ++ insn.extractLsb' 7 1 ++ insn.extractLsb' 25 6 ++ insn.extractLsb' 8 4 ++ 0#1 :
    BitVec 13).signExtend 64
def immU (insn : U32) : U64 := (insn &&& 0xFFFFF000).signExtend 64
def immJ (insn : U32) : U64 :=
  (insn.extractLsb' 31 1 ++ insn.extractLsb' 12 8 ++ insn.extractLsb' 20 1 ++ insn.extractLsb' 21 10 ++ 0#1 :
    BitVec 21).signExtend 64

def isCompressed (insn : U32) : Bool := insn &&& 3 != 3

theorem funct3_cases (f3 : BitVec 3) : f3 = 0 ∨ f3 = 1 ∨ f3 = 2 ∨ f3 = 3 ∨ f3 = 4 ∨ f3 = 5 ∨ f3 = 6 ∨ f3 = 7 := by
  revert f3
  decide

theorem opcode_toNat (insn : U32) : (opcode insn).toNat = insn.toNat % 128 := by
  simp [opcode, BitVec.extractLsb'_toNat]

theorem isCompressed_of_opcode {insn : U32} (h : (opcode insn).toNat % 4 = 3) : isCompressed insn = false := by
  have hmod : insn.toNat % 4 = 3 := by
    have := opcode_toNat insn
    omega
  have hand : insn &&& 3 = 3 := by
    apply BitVec.eq_of_toNat_eq
    rw [BitVec.toNat_and]
    exact (Nat.and_two_pow_sub_one_eq_mod insn.toNat 2).trans hmod
  rw [isCompressed, hand]
  rfl

/-- The bytes an instruction takes. -/
def insnBytes (compressed : Bool) : U64 := if compressed then 2 else 4

/-! ## Compressed instructions -/

/-- Bits `lo .. lo + n - 1` of a 16-bit instruction. -/
def cbits (ci : U16) (lo n : Nat) : U32 := (ci.extractLsb' lo n).setWidth 32

/-- `(imm << n) >> n` on an `int32_t`. -/
def sext (imm : U32) (n : Nat) : U32 := (imm <<< n).sshiftRight n

def encI (imm rs1 f3 rd op : U32) : U32 := imm <<< 20 ||| rs1 <<< 15 ||| f3 <<< 12 ||| rd <<< 7 ||| op
def encS (off rs2 rs1 f3 op : U32) : U32 :=
  ((off >>> 5) &&& 0x7F) <<< 25 ||| rs2 <<< 20 ||| rs1 <<< 15 ||| f3 <<< 12 ||| (off &&& 0x1F) <<< 7 ||| op
def encR (f7 rs2 rs1 f3 rd op : U32) : U32 :=
  f7 <<< 25 ||| rs2 <<< 20 ||| rs1 <<< 15 ||| f3 <<< 12 ||| rd <<< 7 ||| op

/-- Quadrant 0. -/
def uncompress0 (ci : U16) : Option U32 :=
  let rdp := cbits ci 2 3 + 8
  let rs1p := cbits ci 7 3 + 8
  let offW := cbits ci 5 1 <<< 6 ||| cbits ci 6 1 <<< 2 ||| cbits ci 10 3 <<< 3
  let offD := cbits ci 5 2 <<< 6 ||| cbits ci 10 3 <<< 3
  match (ci.extractLsb' 13 3).toNat with
  | 0 => -- C.ADDI4SPN
    some (encI (cbits ci 5 1 <<< 3 ||| cbits ci 6 1 <<< 2 ||| cbits ci 7 4 <<< 6 ||| cbits ci 11 2 <<< 4) 2 0 rdp 0x13)
  | 1 => some (encI offD rs1p 3 rdp 0x07) -- C.FLD
  | 2 => some (encI offW rs1p 2 rdp 0x03) -- C.LW
  | 3 => some (encI offD rs1p 3 rdp 0x03) -- C.LD
  | 5 => some (encS offD rdp rs1p 3 0x27) -- C.FSD
  | 6 => some (encS offW rdp rs1p 2 0x23) -- C.SW
  | 7 => some (encS offD rdp rs1p 3 0x23) -- C.SD
  | _ => none

/-- C.SRLI, C.SRAI, C.ANDI and the register forms. -/
def uncompressAlu (ci : U16) : Option U32 :=
  let r := cbits ci 7 3 + 8
  let r2 := cbits ci 2 3 + 8
  let shamt := cbits ci 12 1 <<< 5 ||| cbits ci 2 5
  match (ci.extractLsb' 10 2).toNat with
  | 0 => some (encI shamt r 5 r 0x13)
  | 1 => some (encI (0x20 <<< 5 ||| shamt) r 5 r 0x13)
  | 2 => some (encI (sext shamt 26 &&& 0xFFF) r 7 r 0x13)
  | _ =>
    match (ci.extractLsb' 12 1).toNat, (ci.extractLsb' 5 2).toNat with
    | 0, 0 => some (encR 0x20 r2 r 0 r 0x33)
    | 0, 1 => some (encR 0 r2 r 4 r 0x33)
    | 0, 2 => some (encR 0 r2 r 6 r 0x33)
    | 0, _ => some (encR 0 r2 r 7 r 0x33)
    | _, 0 => some (encR 0x20 r2 r 0 r 0x3B)
    | _, 1 => some (encR 0 r2 r 0 r 0x3B)
    | _, _ => none

/-- C.BEQZ and C.BNEZ: `signOff` extends the offset from bit 8. -/
def uncompressBranch (signOff : U32 → U32) (f3 : U32) (ci : U16) : U32 :=
  let off := signOff (cbits ci 12 1 <<< 8 ||| cbits ci 10 2 <<< 3 ||| cbits ci 5 2 <<< 6 ||| cbits ci 3 2 <<< 1 |||
    cbits ci 2 1 <<< 5)
  ((off >>> 12) &&& 1) <<< 31 ||| ((off >>> 5) &&& 0x3F) <<< 25 ||| ((off >>> 1) &&& 0xF) <<< 8 |||
    ((off >>> 11) &&& 1) <<< 7 ||| (cbits ci 7 3 + 8) <<< 15 ||| f3 <<< 12 ||| 0x63

/-- Quadrant 1. -/
def uncompress1 (signOff : U32 → U32) (ci : U16) : Option U32 :=
  let r := cbits ci 7 5
  let imm6 := sext (cbits ci 12 1 <<< 5 ||| cbits ci 2 5) 26 &&& 0xFFF
  match (ci.extractLsb' 13 3).toNat with
  | 0 => some (encI imm6 r 0 r 0x13) -- C.ADDI
  | 1 => some (encI imm6 r 0 r 0x1B) -- C.ADDIW
  | 2 => some (encI imm6 0 0 r 0x13) -- C.LI
  | 3 =>
    if r = 2 then -- C.ADDI16SP
      some (encI (sext (cbits ci 12 1 <<< 9 ||| cbits ci 3 2 <<< 7 ||| cbits ci 5 1 <<< 6 ||| cbits ci 2 1 <<< 5 |||
        cbits ci 6 1 <<< 4) 22 &&& 0xFFF) 2 0 2 0x13)
    else -- C.LUI
      some ((sext (cbits ci 12 1 <<< 17 ||| cbits ci 2 5 <<< 12) 14 &&& 0xFFFFF000) ||| r <<< 7 ||| 0x37)
  | 4 => uncompressAlu ci
  | 5 => -- C.J
    let imm := sext (cbits ci 12 1 <<< 11 ||| cbits ci 11 1 <<< 4 ||| cbits ci 9 2 <<< 8 ||| cbits ci 8 1 <<< 10 |||
      cbits ci 7 1 <<< 6 ||| cbits ci 6 1 <<< 7 ||| cbits ci 3 3 <<< 1 ||| cbits ci 2 1 <<< 5) 20
    some (((imm >>> 20) &&& 1) <<< 31 ||| ((imm >>> 1) &&& 0x3FF) <<< 21 ||| ((imm >>> 11) &&& 1) <<< 20 |||
      ((imm >>> 12) &&& 0xFF) <<< 12 ||| 0x6F)
  | 6 => some (uncompressBranch signOff 0 ci)
  | _ => some (uncompressBranch signOff 1 ci)

/-- C.JR, C.MV, C.EBREAK, C.JALR and C.ADD. -/
def uncompressJump (ci : U16) : U32 :=
  let r := cbits ci 7 5
  let r2 := cbits ci 2 5
  if cbits ci 12 1 = 0 then if r2 = 0 then encI 0 r 0 0 0x67 else encR 0 r2 0 0 r 0x33
  else if r2 = 0 ∧ r = 0 then 0x00100073
  else if r2 = 0 then encI 0 r 0 1 0x67
  else encR 0 r2 r 0 r 0x33

/-- Quadrant 2. -/
def uncompress2 (ci : U16) : U32 :=
  let r := cbits ci 7 5
  let r2 := cbits ci 2 5
  let offLd := cbits ci 12 1 <<< 5 ||| cbits ci 5 2 <<< 3 ||| cbits ci 2 3 <<< 6
  let offSd := cbits ci 10 3 <<< 3 ||| cbits ci 7 3 <<< 6
  match (ci.extractLsb' 13 3).toNat with
  | 0 => encI (cbits ci 12 1 <<< 5 ||| cbits ci 2 5) r 1 r 0x13 -- C.SLLI
  | 1 => encI offLd 2 3 r 0x07 -- C.FLDSP
  | 2 => encI (cbits ci 12 1 <<< 5 ||| cbits ci 4 3 <<< 2 ||| cbits ci 2 2 <<< 6) 2 2 r 0x03 -- C.LWSP
  | 3 => encI offLd 2 3 r 0x03 -- C.LDSP
  | 4 => uncompressJump ci
  | 5 => encS offSd r2 2 3 0x27 -- C.FSDSP
  | 6 => encS (cbits ci 9 4 <<< 2 ||| cbits ci 7 2 <<< 6) r2 2 2 0x23 -- C.SWSP
  | _ => encS offSd r2 2 3 0x23 -- C.SDSP

def uncompressWith (signOff : U32 → U32) (ci : U16) : Option U32 :=
  match (ci.extractLsb' 0 2).toNat with
  | 0 => uncompress0 ci
  | 1 => uncompress1 signOff ci
  | 2 => some (uncompress2 ci)
  | _ => none

/-- The expansion in `rv64_step`; `none` is `illegal_compressed`. -/
def rv64Uncompress (ci : U16) : Option U32 := uncompressWith (fun off => sext off 23) ci

/-- `sljit_uncompress`; 0 is an illegal encoding. -/
def sljitUncompress (ci : U16) : U32 :=
  (uncompressWith (fun off => if off &&& 0x100 ≠ 0 then off - 0x200 else off) ci).getD 0

end PgLinux
