import PgLinux.JitLegality
/-!
# Compressed — 16-bit instructions

`rvcWord` is the table of RVC with F and D: the base instruction of each encoding, written as its fields one after the
other.  `rv64_step` expands an encoding to that word.  It has an exit for the encodings that the table leaves open, and none
for those whose operands are reserved.
-/
namespace PgLinux

open Prog

/-! ## Base formats -/

def wordI (imm : BitVec 12) (rs1 : BitVec 5) (f3 : BitVec 3) (rd : BitVec 5) (op : BitVec 7) : U32 :=
  imm ++ rs1 ++ f3 ++ rd ++ op

def wordS (imm : BitVec 12) (rs2 rs1 : BitVec 5) (f3 : BitVec 3) (op : BitVec 7) : U32 :=
  imm.extractLsb' 5 7 ++ rs2 ++ rs1 ++ f3 ++ imm.extractLsb' 0 5 ++ op

def wordR (f7 : BitVec 7) (rs2 rs1 : BitVec 5) (f3 : BitVec 3) (rd : BitVec 5) (op : BitVec 7) : U32 :=
  f7 ++ rs2 ++ rs1 ++ f3 ++ rd ++ op

def wordB (off : BitVec 13) (rs2 rs1 : BitVec 5) (f3 : BitVec 3) : U32 :=
  off.extractLsb' 12 1 ++ off.extractLsb' 5 6 ++ rs2 ++ rs1 ++ f3 ++ off.extractLsb' 1 4 ++ off.extractLsb' 11 1 ++ 0x63#7

def wordU (imm : BitVec 20) (rd : BitVec 5) (op : BitVec 7) : U32 := imm ++ rd ++ op

def wordJ (off : BitVec 21) (rd : BitVec 5) : U32 :=
  off.extractLsb' 20 1 ++ off.extractLsb' 1 10 ++ off.extractLsb' 11 1 ++ off.extractLsb' 12 8 ++ rd ++ 0x6F#7

/-! ## Fields of an encoding -/

def cfunct3 (ci : U16) : BitVec 3 := ci.extractLsb' 13 3

/-- A full register field. -/
def creg (ci : U16) (lo : Nat) : BitVec 5 := ci.extractLsb' lo 5

/-- A register field of three bits, for x8 to x15. -/
def cregShort (ci : U16) (lo : Nat) : BitVec 5 := 1#2 ++ (ci.extractLsb' lo 3 : BitVec 3)

/-- `imm[5]`, `imm[4:0]`. -/
def cimm6 (ci : U16) : BitVec 6 := ci.extractLsb' 12 1 ++ ci.extractLsb' 2 5

/-- `nzuimm[5:4|9:6|2|3]` of C.ADDI4SPN. -/
def cimmAddi4spn (ci : U16) : BitVec 10 :=
  ci.extractLsb' 7 4 ++ ci.extractLsb' 11 2 ++ ci.extractLsb' 5 1 ++ ci.extractLsb' 6 1 ++ 0#2

/-- `nzimm[9]`, `nzimm[4|6|8:7|5]` of C.ADDI16SP. -/
def cimmAddi16sp (ci : U16) : BitVec 10 :=
  ci.extractLsb' 12 1 ++ ci.extractLsb' 3 2 ++ ci.extractLsb' 5 1 ++ ci.extractLsb' 2 1 ++ ci.extractLsb' 6 1 ++ 0#4

/-- `uimm[5:3]`, `uimm[2|6]`. -/
def coffW (ci : U16) : BitVec 7 := ci.extractLsb' 5 1 ++ ci.extractLsb' 10 3 ++ ci.extractLsb' 6 1 ++ 0#2

/-- `uimm[5:3]`, `uimm[7:6]`. -/
def coffD (ci : U16) : BitVec 8 := ci.extractLsb' 5 2 ++ ci.extractLsb' 10 3 ++ 0#3

/-- `uimm[5]`, `uimm[4:2|7:6]` of C.LWSP. -/
def coffLwsp (ci : U16) : BitVec 8 := ci.extractLsb' 2 2 ++ ci.extractLsb' 12 1 ++ ci.extractLsb' 4 3 ++ 0#2

/-- `uimm[5]`, `uimm[4:3|8:6]` of C.LDSP. -/
def coffLdsp (ci : U16) : BitVec 9 := ci.extractLsb' 2 3 ++ ci.extractLsb' 12 1 ++ ci.extractLsb' 5 2 ++ 0#3

/-- `uimm[5:2|7:6]` of C.SWSP. -/
def coffSwsp (ci : U16) : BitVec 8 := ci.extractLsb' 7 2 ++ ci.extractLsb' 9 4 ++ 0#2

/-- `uimm[5:3|8:6]` of C.SDSP. -/
def coffSdsp (ci : U16) : BitVec 9 := ci.extractLsb' 7 3 ++ ci.extractLsb' 10 3 ++ 0#3

/-- `imm[11|4|9:8|10|6|7|3:1|5]` of C.J. -/
def coffJ (ci : U16) : BitVec 12 :=
  ci.extractLsb' 12 1 ++ ci.extractLsb' 8 1 ++ ci.extractLsb' 9 2 ++ ci.extractLsb' 6 1 ++ ci.extractLsb' 7 1 ++
    ci.extractLsb' 2 1 ++ ci.extractLsb' 11 1 ++ ci.extractLsb' 3 3 ++ 0#1

/-- `imm[8|4:3]`, `imm[7:6|2:1|5]` of C.BEQZ and C.BNEZ. -/
def coffB (ci : U16) : BitVec 9 :=
  ci.extractLsb' 12 1 ++ ci.extractLsb' 5 2 ++ ci.extractLsb' 2 1 ++ ci.extractLsb' 10 2 ++ ci.extractLsb' 3 2 ++ 0#1

/-! ## The table -/

def rvcWord0 (ci : U16) : Option U32 :=
  let rd := cregShort ci 2
  let rs1 := cregShort ci 7
  match (cfunct3 ci).toNat with
  | 0 => some (wordI ((cimmAddi4spn ci).setWidth 12) 2 0 rd 0x13) -- C.ADDI4SPN
  | 1 => some (wordI ((coffD ci).setWidth 12) rs1 3 rd 0x07) -- C.FLD
  | 2 => some (wordI ((coffW ci).setWidth 12) rs1 2 rd 0x03) -- C.LW
  | 3 => some (wordI ((coffD ci).setWidth 12) rs1 3 rd 0x03) -- C.LD
  | 5 => some (wordS ((coffD ci).setWidth 12) rd rs1 3 0x27) -- C.FSD
  | 6 => some (wordS ((coffW ci).setWidth 12) rd rs1 2 0x23) -- C.SW
  | 7 => some (wordS ((coffD ci).setWidth 12) rd rs1 3 0x23) -- C.SD
  | _ => none

/-- C.SRLI, C.SRAI, C.ANDI, C.SUB, C.XOR, C.OR, C.AND, C.SUBW and C.ADDW. -/
def rvcWordAlu (ci : U16) : Option U32 :=
  let rd := cregShort ci 7
  let rs2 := cregShort ci 2
  match (ci.extractLsb' 10 2).toNat with
  | 0 => some (wordI (0#6 ++ cimm6 ci) rd 5 rd 0x13)
  | 1 => some (wordI (0x10#6 ++ cimm6 ci) rd 5 rd 0x13)
  | 2 => some (wordI ((cimm6 ci).signExtend 12) rd 7 rd 0x13)
  | _ =>
    match (ci.extractLsb' 12 1).toNat, (ci.extractLsb' 5 2).toNat with
    | 0, 0 => some (wordR 0x20 rs2 rd 0 rd 0x33)
    | 0, 1 => some (wordR 0 rs2 rd 4 rd 0x33)
    | 0, 2 => some (wordR 0 rs2 rd 6 rd 0x33)
    | 0, _ => some (wordR 0 rs2 rd 7 rd 0x33)
    | _, 0 => some (wordR 0x20 rs2 rd 0 rd 0x3B)
    | _, 1 => some (wordR 0 rs2 rd 0 rd 0x3B)
    | _, _ => none

def rvcWord1 (ci : U16) : Option U32 :=
  let rd := creg ci 7
  match (cfunct3 ci).toNat with
  | 0 => some (wordI ((cimm6 ci).signExtend 12) rd 0 rd 0x13) -- C.ADDI
  | 1 => some (wordI ((cimm6 ci).signExtend 12) rd 0 rd 0x1B) -- C.ADDIW
  | 2 => some (wordI ((cimm6 ci).signExtend 12) 0 0 rd 0x13) -- C.LI
  | 3 =>
    if rd = 2 then some (wordI ((cimmAddi16sp ci).signExtend 12) 2 0 2 0x13) -- C.ADDI16SP
    else some (wordU ((cimm6 ci).signExtend 20) rd 0x37) -- C.LUI
  | 4 => rvcWordAlu ci
  | 5 => some (wordJ ((coffJ ci).signExtend 21) 0) -- C.J
  | 6 => some (wordB ((coffB ci).signExtend 13) 0 (cregShort ci 7) 0) -- C.BEQZ
  | _ => some (wordB ((coffB ci).signExtend 13) 0 (cregShort ci 7) 1) -- C.BNEZ

/-- C.JR, C.MV, C.EBREAK, C.JALR and C.ADD. -/
def rvcWordJump (ci : U16) : U32 :=
  let rd := creg ci 7
  let rs2 := creg ci 2
  if ci.getLsbD 12 = false then if rs2 = 0 then wordI 0 rd 0 0 0x67 else wordR 0 rs2 0 0 rd 0x33
  else if rs2 = 0 ∧ rd = 0 then wordI 1 0 0 0 0x73
  else if rs2 = 0 then wordI 0 rd 0 1 0x67
  else wordR 0 rs2 rd 0 rd 0x33

def rvcWord2 (ci : U16) : U32 :=
  let rd := creg ci 7
  let rs2 := creg ci 2
  match (cfunct3 ci).toNat with
  | 0 => wordI (0#6 ++ cimm6 ci) rd 1 rd 0x13 -- C.SLLI
  | 1 => wordI ((coffLdsp ci).setWidth 12) 2 3 rd 0x07 -- C.FLDSP
  | 2 => wordI ((coffLwsp ci).setWidth 12) 2 2 rd 0x03 -- C.LWSP
  | 3 => wordI ((coffLdsp ci).setWidth 12) 2 3 rd 0x03 -- C.LDSP
  | 4 => rvcWordJump ci
  | 5 => wordS ((coffSdsp ci).setWidth 12) rs2 2 3 0x27 -- C.FSDSP
  | 6 => wordS ((coffSwsp ci).setWidth 12) rs2 2 2 0x23 -- C.SWSP
  | _ => wordS ((coffSdsp ci).setWidth 12) rs2 2 3 0x23 -- C.SDSP

/-- The base instruction of an encoding, whatever its operands. -/
def rvcWord (ci : U16) : Option U32 :=
  match (ci.extractLsb' 0 2).toNat with
  | 0 => rvcWord0 ci
  | 1 => rvcWord1 ci
  | 2 => some (rvcWord2 ci)
  | _ => none

/-- Encodings of the table with reserved operands: an immediate that must not be 0 (the all-zero word among them), or a
register that must not be x0. -/
def ReservedOperands (ci : U16) : Prop :=
  match (ci.extractLsb' 0 2).toNat, (cfunct3 ci).toNat with
  | 0, 0 => cimmAddi4spn ci = 0
  | 1, 1 => creg ci 7 = 0
  | 1, 3 => if creg ci 7 = 2 then cimmAddi16sp ci = 0 else cimm6 ci = 0
  | 2, 2 | 2, 3 => creg ci 7 = 0
  | 2, 4 => ci.getLsbD 12 = false ∧ creg ci 2 = 0 ∧ creg ci 7 = 0
  | _, _ => False

instance (ci : U16) : Decidable (ReservedOperands ci) := by
  unfold ReservedOperands
  split <;> infer_instance

/-- What an encoding stands for; `none` is a reserved encoding. -/
def rvcBase (ci : U16) : Option U32 := if ReservedOperands ci then none else rvcWord ci

/-! ## The expansion -/

section Expansion

variable (imm : BitVec 12) (rs1 rs2 rd : BitVec 5) (f3 : BitVec 3) (f7 op : BitVec 7)

theorem encI_word : encI (imm.setWidth 32) (rs1.setWidth 32) (f3.setWidth 32) (rd.setWidth 32) (op.setWidth 32) =
    wordI imm rs1 f3 rd op := by
  apply BitVec.eq_of_getLsbD_eq
  intro i hi
  unfold encI wordI
  simp only [BitVec.getLsbD_or, BitVec.getLsbD_shiftLeft, BitVec.getLsbD_setWidth, BitVec.getLsbD_append]
  grind

theorem encR_word : encR (f7.setWidth 32) (rs2.setWidth 32) (rs1.setWidth 32) (f3.setWidth 32) (rd.setWidth 32)
    (op.setWidth 32) = wordR f7 rs2 rs1 f3 rd op := by
  apply BitVec.eq_of_getLsbD_eq
  intro i hi
  unfold encR wordR
  simp only [BitVec.getLsbD_or, BitVec.getLsbD_shiftLeft, BitVec.getLsbD_setWidth, BitVec.getLsbD_append]
  grind

/-- A field of an immediate, cut out with a shift and a mask. -/
theorem shift_mask {w : Nat} (x : BitVec w) (k n : Nat) (m : BitVec w) (hm : m = BitVec.ofNat w (2 ^ n - 1)) :
    (x >>> k) &&& m = (x.extractLsb' k n).setWidth w := by
  apply BitVec.eq_of_getLsbD_eq
  intro i hi
  simp only [hm, BitVec.getLsbD_and, BitVec.getLsbD_ushiftRight, BitVec.getLsbD_ofNat, Nat.testBit_two_pow_sub_one,
    BitVec.getLsbD_setWidth, BitVec.getLsbD_extractLsb', hi, decide_true, Bool.true_and]
  exact Bool.and_comm _ _

theorem extract_setWidth (k n : Nat) (_ : k + n ≤ 12) :
    ((imm.setWidth 32).extractLsb' k n : BitVec n) = imm.extractLsb' k n := by
  apply BitVec.eq_of_getLsbD_eq
  intro i hi
  simp only [BitVec.getLsbD_extractLsb', BitVec.getLsbD_setWidth]
  grind

theorem encS_word : encS (imm.setWidth 32) (rs2.setWidth 32) (rs1.setWidth 32) (f3.setWidth 32) (op.setWidth 32) =
    wordS imm rs2 rs1 f3 op := by
  have hlow : imm.setWidth 32 &&& (0x1F : U32) = (imm.setWidth 32 >>> 0) &&& (0x1F : U32) := by rw [BitVec.ushiftRight_zero]
  unfold encS wordS
  rw [hlow, shift_mask _ 5 7 0x7F rfl, shift_mask _ 0 5 0x1F rfl, extract_setWidth _ 5 7 (by decide),
    extract_setWidth _ 0 5 (by decide)]
  generalize imm.extractLsb' 5 7 = high
  generalize imm.extractLsb' 0 5 = low
  apply BitVec.eq_of_getLsbD_eq
  intro i hi
  simp only [BitVec.getLsbD_or, BitVec.getLsbD_shiftLeft, BitVec.getLsbD_setWidth, BitVec.getLsbD_append]
  grind

end Expansion

/-! ### Fields -/

theorem funct2_cases (f : BitVec 2) : f = 0 ∨ f = 1 ∨ f = 2 ∨ f = 3 := by
  revert f
  decide

theorem bit_cases (b : BitVec 1) : b = 0 ∨ b = 1 := by
  revert b
  decide

section Fields

variable (ci : U16)

theorem cbits_reg (lo : Nat) : cbits ci lo 5 = (creg ci lo).setWidth 32 := rfl

theorem cbits_regShort (lo : Nat) : cbits ci lo 3 + 8 = (cregShort ci lo).setWidth 32 := by
  unfold cbits cregShort
  generalize (ci.extractLsb' lo 3 : BitVec 3) = r
  revert r
  decide

theorem expand_imm6 : cbits ci 12 1 <<< 5 ||| cbits ci 2 5 = (cimm6 ci).setWidth 32 := by
  unfold cbits cimm6
  generalize (ci.extractLsb' 12 1 : BitVec 1) = a
  generalize (ci.extractLsb' 2 5 : BitVec 5) = b
  revert a b
  decide

theorem expand_addi4spn : cbits ci 5 1 <<< 3 ||| cbits ci 6 1 <<< 2 ||| cbits ci 7 4 <<< 6 ||| cbits ci 11 2 <<< 4 =
    ((cimmAddi4spn ci).setWidth 12).setWidth 32 := by
  unfold cbits cimmAddi4spn
  generalize (ci.extractLsb' 5 1 : BitVec 1) = a
  generalize (ci.extractLsb' 6 1 : BitVec 1) = b
  generalize (ci.extractLsb' 7 4 : BitVec 4) = c
  generalize (ci.extractLsb' 11 2 : BitVec 2) = d
  revert a b c d
  decide

theorem expand_offW : cbits ci 5 1 <<< 6 ||| cbits ci 6 1 <<< 2 ||| cbits ci 10 3 <<< 3 =
    ((coffW ci).setWidth 12).setWidth 32 := by
  unfold cbits coffW
  generalize (ci.extractLsb' 5 1 : BitVec 1) = a
  generalize (ci.extractLsb' 6 1 : BitVec 1) = b
  generalize (ci.extractLsb' 10 3 : BitVec 3) = c
  revert a b c
  decide

theorem expand_offD : cbits ci 5 2 <<< 6 ||| cbits ci 10 3 <<< 3 = ((coffD ci).setWidth 12).setWidth 32 := by
  unfold cbits coffD
  generalize (ci.extractLsb' 5 2 : BitVec 2) = a
  generalize (ci.extractLsb' 10 3 : BitVec 3) = b
  revert a b
  decide

theorem expand_lwsp : cbits ci 12 1 <<< 5 ||| cbits ci 4 3 <<< 2 ||| cbits ci 2 2 <<< 6 =
    ((coffLwsp ci).setWidth 12).setWidth 32 := by
  unfold cbits coffLwsp
  generalize (ci.extractLsb' 12 1 : BitVec 1) = a
  generalize (ci.extractLsb' 4 3 : BitVec 3) = b
  generalize (ci.extractLsb' 2 2 : BitVec 2) = c
  revert a b c
  decide

theorem expand_ldsp : cbits ci 12 1 <<< 5 ||| cbits ci 5 2 <<< 3 ||| cbits ci 2 3 <<< 6 =
    ((coffLdsp ci).setWidth 12).setWidth 32 := by
  unfold cbits coffLdsp
  generalize (ci.extractLsb' 12 1 : BitVec 1) = a
  generalize (ci.extractLsb' 5 2 : BitVec 2) = b
  generalize (ci.extractLsb' 2 3 : BitVec 3) = c
  revert a b c
  decide

theorem expand_swsp : cbits ci 9 4 <<< 2 ||| cbits ci 7 2 <<< 6 = ((coffSwsp ci).setWidth 12).setWidth 32 := by
  unfold cbits coffSwsp
  generalize (ci.extractLsb' 9 4 : BitVec 4) = a
  generalize (ci.extractLsb' 7 2 : BitVec 2) = b
  revert a b
  decide

theorem expand_sdsp : cbits ci 10 3 <<< 3 ||| cbits ci 7 3 <<< 6 = ((coffSdsp ci).setWidth 12).setWidth 32 := by
  unfold cbits coffSdsp
  generalize (ci.extractLsb' 10 3 : BitVec 3) = a
  generalize (ci.extractLsb' 7 3 : BitVec 3) = b
  revert a b
  decide

theorem expand_addi16sp : sext (cbits ci 12 1 <<< 9 ||| cbits ci 3 2 <<< 7 ||| cbits ci 5 1 <<< 6 ||| cbits ci 2 1 <<< 5 |||
    cbits ci 6 1 <<< 4) 22 &&& 0xFFF = ((cimmAddi16sp ci).signExtend 12).setWidth 32 := by
  unfold cbits cimmAddi16sp
  generalize (ci.extractLsb' 12 1 : BitVec 1) = a
  generalize (ci.extractLsb' 3 2 : BitVec 2) = b
  generalize (ci.extractLsb' 5 1 : BitVec 1) = c
  generalize (ci.extractLsb' 2 1 : BitVec 1) = d
  generalize (ci.extractLsb' 6 1 : BitVec 1) = e
  revert a b c d e
  decide

theorem sext_imm6 : sext (cbits ci 12 1 <<< 5 ||| cbits ci 2 5) 26 &&& 0xFFF = ((cimm6 ci).signExtend 12).setWidth 32 := by
  rw [expand_imm6]
  generalize cimm6 ci = v
  revert v
  decide

theorem expand_lui : (sext (cbits ci 12 1 <<< 17 ||| cbits ci 2 5 <<< 12) 14 &&& 0xFFFFF000) ||| cbits ci 7 5 <<< 7 ||| 0x37 =
    wordU ((cimm6 ci).signExtend 20) (creg ci 7) 0x37 := by
  have himm : sext (cbits ci 12 1 <<< 17 ||| cbits ci 2 5 <<< 12) 14 &&& ((0xFFFFF000 : ℕ) : U32) =
      ((cimm6 ci).signExtend 20).setWidth 32 <<< 12 := by
    unfold cbits cimm6
    generalize (ci.extractLsb' 12 1 : BitVec 1) = a
    generalize (ci.extractLsb' 2 5 : BitVec 5) = b
    revert a b
    decide
  rw [himm, cbits_reg]
  generalize (cimm6 ci).signExtend 20 = imm
  generalize creg ci 7 = rd
  unfold wordU
  show _ ||| (0x37#7).setWidth 32 = _
  apply BitVec.eq_of_getLsbD_eq
  intro i hi
  simp only [BitVec.getLsbD_or, BitVec.getLsbD_shiftLeft, BitVec.getLsbD_setWidth, BitVec.getLsbD_append]
  grind

/-- A field of a sign-extended offset does not depend on the width it is extended to. -/
theorem extract_signExtend {m : Nat} (v : BitVec m) (w k n : Nat) (hw : k + n ≤ w) (h32 : k + n ≤ 32) :
    ((v.signExtend 32).extractLsb' k n : BitVec n) = (v.signExtend w).extractLsb' k n := by
  apply BitVec.eq_of_getLsbD_eq
  intro i hi
  simp only [BitVec.getLsbD_extractLsb', BitVec.getLsbD_signExtend]
  grind

theorem sext_offJ : sext (cbits ci 12 1 <<< 11 ||| cbits ci 11 1 <<< 4 ||| cbits ci 9 2 <<< 8 ||| cbits ci 8 1 <<< 10 |||
    cbits ci 7 1 <<< 6 ||| cbits ci 6 1 <<< 7 ||| cbits ci 3 3 <<< 1 ||| cbits ci 2 1 <<< 5) 20 =
      (coffJ ci).signExtend 32 := by
  unfold cbits coffJ
  generalize (ci.extractLsb' 12 1 : BitVec 1) = a
  generalize (ci.extractLsb' 11 1 : BitVec 1) = b
  generalize (ci.extractLsb' 9 2 : BitVec 2) = c
  generalize (ci.extractLsb' 8 1 : BitVec 1) = d
  generalize (ci.extractLsb' 7 1 : BitVec 1) = e
  generalize (ci.extractLsb' 6 1 : BitVec 1) = f
  generalize (ci.extractLsb' 3 3 : BitVec 3) = g
  generalize (ci.extractLsb' 2 1 : BitVec 1) = h
  revert a b c d e f g h
  decide +kernel

theorem sext_offB : sext (cbits ci 12 1 <<< 8 ||| cbits ci 10 2 <<< 3 ||| cbits ci 5 2 <<< 6 ||| cbits ci 3 2 <<< 1 |||
    cbits ci 2 1 <<< 5) 23 = (coffB ci).signExtend 32 := by
  unfold cbits coffB
  generalize (ci.extractLsb' 12 1 : BitVec 1) = a
  generalize (ci.extractLsb' 10 2 : BitVec 2) = b
  generalize (ci.extractLsb' 5 2 : BitVec 2) = c
  generalize (ci.extractLsb' 3 2 : BitVec 2) = d
  generalize (ci.extractLsb' 2 1 : BitVec 1) = e
  revert a b c d e
  decide +kernel

theorem expand_jump {m : Nat} (v : BitVec m) : (((v.signExtend 32 : U32) >>> 20) &&& 1) <<< 31 |||
    (((v.signExtend 32 : U32) >>> 1) &&& 0x3FF) <<< 21 ||| (((v.signExtend 32 : U32) >>> 11) &&& 1) <<< 20 |||
      (((v.signExtend 32 : U32) >>> 12) &&& 0xFF) <<< 12 ||| 0x6F = wordJ (v.signExtend 21) 0 := by
  rw [shift_mask _ 20 1 1 rfl, shift_mask _ 1 10 0x3FF rfl, shift_mask _ 11 1 1 rfl, shift_mask _ 12 8 0xFF rfl,
    extract_signExtend v 21 20 1 (by decide) (by decide), extract_signExtend v 21 1 10 (by decide) (by decide),
    extract_signExtend v 21 11 1 (by decide) (by decide), extract_signExtend v 21 12 8 (by decide) (by decide)]
  unfold wordJ
  generalize (v.signExtend 21).extractLsb' 20 1 = a
  generalize (v.signExtend 21).extractLsb' 1 10 = b
  generalize (v.signExtend 21).extractLsb' 11 1 = c
  generalize (v.signExtend 21).extractLsb' 12 8 = d
  show _ ||| (0x6F#7).setWidth 32 = _
  apply BitVec.eq_of_getLsbD_eq
  intro i hi
  simp only [BitVec.getLsbD_or, BitVec.getLsbD_shiftLeft, BitVec.getLsbD_setWidth, BitVec.getLsbD_append]
  grind

theorem expand_branch (f3 : BitVec 3) :
    uncompressBranch (fun off => sext off 23) (f3.setWidth 32) ci = wordB ((coffB ci).signExtend 13) 0 (cregShort ci 7) f3 := by
  unfold uncompressBranch
  dsimp only
  rw [sext_offB, cbits_regShort]
  generalize coffB ci = v
  rw [shift_mask _ 12 1 1 rfl, shift_mask _ 5 6 0x3F rfl, shift_mask _ 1 4 0xF rfl, shift_mask _ 11 1 1 rfl,
    extract_signExtend v 13 12 1 (by decide) (by decide), extract_signExtend v 13 5 6 (by decide) (by decide),
    extract_signExtend v 13 1 4 (by decide) (by decide), extract_signExtend v 13 11 1 (by decide) (by decide)]
  unfold wordB
  generalize (v.signExtend 13).extractLsb' 12 1 = a
  generalize (v.signExtend 13).extractLsb' 5 6 = b
  generalize (v.signExtend 13).extractLsb' 1 4 = c
  generalize (v.signExtend 13).extractLsb' 11 1 = d
  generalize cregShort ci 7 = r
  show _ ||| (0x63#7).setWidth 32 = _
  apply BitVec.eq_of_getLsbD_eq
  intro i hi
  simp only [BitVec.getLsbD_or, BitVec.getLsbD_shiftLeft, BitVec.getLsbD_setWidth, BitVec.getLsbD_append]
  grind

/-! ### Quadrants -/

theorem uncompress0_eq : uncompress0 ci = rvcWord0 ci := by
  unfold uncompress0 rvcWord0 cfunct3
  simp only [cbits_regShort, expand_addi4spn, expand_offW, expand_offD]
  generalize (ci.extractLsb' 13 3 : BitVec 3) = f
  rcases funct3_cases f with rfl | rfl | rfl | rfl | rfl | rfl | rfl | rfl
  · exact congrArg some (encI_word _ 2 _ 0 0x13)
  · exact congrArg some (encI_word _ _ _ 3 0x07)
  · exact congrArg some (encI_word _ _ _ 2 0x03)
  · exact congrArg some (encI_word _ _ _ 3 0x03)
  · rfl
  · exact congrArg some (encS_word _ _ _ 3 0x27)
  · exact congrArg some (encS_word _ _ _ 2 0x23)
  · exact congrArg some (encS_word _ _ _ 3 0x23)

theorem shamt_logical (v : BitVec 6) : (v.setWidth 32 : U32) = (0#6 ++ v : BitVec 12).setWidth 32 := by
  revert v
  decide

theorem shamt_arith (v : BitVec 6) : (((0x20 <<< 5 : ℕ) : U32) ||| v.setWidth 32) = (0x10#6 ++ v : BitVec 12).setWidth 32 := by
  revert v
  decide

theorem uncompressAlu_eq : uncompressAlu ci = rvcWordAlu ci := by
  have hand : sext ((cimm6 ci).setWidth 32) 26 &&& 0xFFF = ((cimm6 ci).signExtend 12).setWidth 32 := by
    rw [← expand_imm6, sext_imm6]
  unfold uncompressAlu rvcWordAlu
  simp only [cbits_regShort, expand_imm6]
  rw [hand, shamt_arith]
  generalize (ci.extractLsb' 10 2 : BitVec 2) = f
  generalize (ci.extractLsb' 12 1 : BitVec 1) = a
  generalize (ci.extractLsb' 5 2 : BitVec 2) = b
  rcases funct2_cases f with rfl | rfl | rfl | rfl
  · rw [shamt_logical]
    exact congrArg some (encI_word _ _ _ 5 0x13)
  · exact congrArg some (encI_word _ _ _ 5 0x13)
  · exact congrArg some (encI_word _ _ _ 7 0x13)
  · rcases bit_cases a with rfl | rfl
    · rcases funct2_cases b with rfl | rfl | rfl | rfl
      · exact congrArg some (encR_word _ _ _ 0 0x20 0x33)
      · exact congrArg some (encR_word _ _ _ 4 0 0x33)
      · exact congrArg some (encR_word _ _ _ 6 0 0x33)
      · exact congrArg some (encR_word _ _ _ 7 0 0x33)
    · rcases funct2_cases b with rfl | rfl | rfl | rfl
      · exact congrArg some (encR_word _ _ _ 0 0x20 0x3B)
      · exact congrArg some (encR_word _ _ _ 0 0 0x3B)
      · rfl
      · rfl

theorem uncompress1_eq : uncompress1 (fun off => sext off 23) ci = rvcWord1 ci := by
  have hr : cbits ci 7 5 = 2 ↔ creg ci 7 = 2 := by
    rw [cbits_reg]
    generalize creg ci 7 = r
    revert r
    decide
  unfold uncompress1 rvcWord1 cfunct3
  simp only [sext_imm6, expand_addi16sp, sext_offJ, hr]
  rw [expand_lui, expand_jump, uncompressAlu_eq, cbits_reg]
  generalize (ci.extractLsb' 13 3 : BitVec 3) = f
  rcases funct3_cases f with rfl | rfl | rfl | rfl | rfl | rfl | rfl | rfl
  · exact congrArg some (encI_word _ _ _ 0 0x13)
  · exact congrArg some (encI_word _ _ _ 0 0x1B)
  · exact congrArg some (encI_word _ 0 _ 0 0x13)
  · by_cases h2 : creg ci 7 = 2
    · simp only [h2]
      exact congrArg some (encI_word _ 2 2 0 0x13)
    · simp only [h2]
      rfl
  · rfl
  · rfl
  · exact congrArg some (expand_branch ci 0)
  · exact congrArg some (expand_branch ci 1)

theorem uncompressJump_eq : uncompressJump ci = rvcWordJump ci := by
  have hbit : cbits ci 12 1 = 0 ↔ ci.getLsbD 12 = false := by
    unfold cbits
    have hlow : (ci.extractLsb' 12 1 : BitVec 1).getLsbD 0 = ci.getLsbD 12 := by simp
    rw [← hlow]
    generalize (ci.extractLsb' 12 1 : BitVec 1) = a
    revert a
    decide
  have hzero (lo : Nat) : cbits ci lo 5 = 0 ↔ creg ci lo = 0 := by
    rw [cbits_reg]
    generalize creg ci lo = r
    revert r
    decide
  unfold uncompressJump rvcWordJump
  simp only [hbit, hzero]
  simp only [cbits_reg]
  split_ifs
  · exact encI_word 0 _ 0 0 0x67
  · exact encR_word 0 _ _ 0 0 0x33
  · rfl
  · exact encI_word 0 _ 1 0 0x67
  · exact encR_word _ _ _ 0 0 0x33

theorem uncompress2_eq : uncompress2 ci = rvcWord2 ci := by
  unfold uncompress2 rvcWord2 cfunct3
  simp only [expand_imm6, expand_ldsp, expand_lwsp, expand_swsp, expand_sdsp]
  simp only [cbits_reg]
  rw [uncompressJump_eq, shamt_logical (cimm6 ci)]
  generalize (ci.extractLsb' 13 3 : BitVec 3) = f
  rcases funct3_cases f with rfl | rfl | rfl | rfl | rfl | rfl | rfl | rfl
  · exact encI_word _ _ _ 1 0x13
  · exact encI_word _ 2 _ 3 0x07
  · exact encI_word _ 2 _ 2 0x03
  · exact encI_word _ 2 _ 3 0x03
  · rfl
  · exact encS_word _ 2 _ 3 0x27
  · exact encS_word _ 2 _ 2 0x23
  · exact encS_word _ 2 _ 3 0x23

/-- **`rv64_step` expands an encoding to the base instruction of the table**, or to none where the table has none. -/
theorem rv64Uncompress_eq : rv64Uncompress ci = rvcWord ci := by
  show (match (ci.extractLsb' 0 2).toNat with
    | 0 => uncompress0 ci
    | 1 => uncompress1 (fun off => sext off 23) ci
    | 2 => some (uncompress2 ci)
    | _ => none) = rvcWord ci
  unfold rvcWord
  rw [uncompress0_eq, uncompress1_eq, uncompress2_eq]

end Fields

/-! ## The words of the table are legal -/

section Words

variable (imm : BitVec 12) (rs1 rs2 rd : BitVec 5) (f3 : BitVec 3) (f7 op : BitVec 7)

@[simp] theorem opcode_wordI : opcode (wordI imm rs1 f3 rd op) = op := BitVec.extractLsb'_append_eq_right

@[simp] theorem opcode_wordS : opcode (wordS imm rs2 rs1 f3 op) = op := BitVec.extractLsb'_append_eq_right

@[simp] theorem opcode_wordR : opcode (wordR f7 rs2 rs1 f3 rd op) = op := BitVec.extractLsb'_append_eq_right

@[simp] theorem opcode_wordB (off : BitVec 13) : opcode (wordB off rs2 rs1 f3) = 0x63 := BitVec.extractLsb'_append_eq_right

@[simp] theorem opcode_wordU (v : BitVec 20) : opcode (wordU v rd op) = op := BitVec.extractLsb'_append_eq_right

@[simp] theorem opcode_wordJ (off : BitVec 21) : opcode (wordJ off rd) = 0x6F := BitVec.extractLsb'_append_eq_right

@[simp] theorem funct3_wordI : funct3 (wordI imm rs1 f3 rd op) = f3 := by
  apply BitVec.eq_of_getLsbD_eq
  intro i hi
  unfold funct3 wordI
  simp only [BitVec.getLsbD_extractLsb', BitVec.getLsbD_append]
  grind

@[simp] theorem funct3_wordS : funct3 (wordS imm rs2 rs1 f3 op) = f3 := by
  apply BitVec.eq_of_getLsbD_eq
  intro i hi
  unfold funct3 wordS
  simp only [BitVec.getLsbD_extractLsb', BitVec.getLsbD_append]
  grind

@[simp] theorem funct3_wordR : funct3 (wordR f7 rs2 rs1 f3 rd op) = f3 := by
  apply BitVec.eq_of_getLsbD_eq
  intro i hi
  unfold funct3 wordR
  simp only [BitVec.getLsbD_extractLsb', BitVec.getLsbD_append]
  grind

@[simp] theorem funct3_wordB (off : BitVec 13) : funct3 (wordB off rs2 rs1 f3) = f3 := by
  apply BitVec.eq_of_getLsbD_eq
  intro i hi
  unfold funct3 wordB
  simp only [BitVec.getLsbD_extractLsb', BitVec.getLsbD_append]
  grind

@[simp] theorem funct7_wordR : funct7 (wordR f7 rs2 rs1 f3 rd op) = f7 := by
  apply BitVec.eq_of_getLsbD_eq
  intro i hi
  unfold funct7 wordR
  simp only [BitVec.getLsbD_extractLsb', BitVec.getLsbD_append]
  grind

end Words

/-- The base instructions that an encoding may stand for: none of them is illegal. -/
def RvcLegal (insn : U32) : Prop :=
  match (opcode insn).toNat with
  | 0x13 | 0x33 | 0x37 | 0x67 | 0x6F => True
  | 0x03 | 0x23 => funct3 insn = 2 ∨ funct3 insn = 3
  | 0x07 | 0x27 => funct3 insn = 3
  | 0x1B => funct3 insn = 0
  | 0x3B => funct3 insn = 0 ∧ funct7 insn ≠ 0x01
  | 0x63 => funct3 insn = 0 ∨ funct3 insn = 1
  | 0x73 => insn = 0x00100073
  | _ => False

theorem rvcWord0_legal {ci : U16} {insn : U32} (h : rvcWord0 ci = some insn) : RvcLegal insn := by
  unfold rvcWord0 at h
  dsimp only at h
  split at h <;> cases h
  all_goals simp [RvcLegal]

theorem rvcWordAlu_legal {ci : U16} {insn : U32} (h : rvcWordAlu ci = some insn) : RvcLegal insn := by
  unfold rvcWordAlu at h
  dsimp only at h
  split at h
  case h_4 =>
    split at h <;> cases h
    all_goals simp [RvcLegal]
  all_goals
    cases h
    simp [RvcLegal]

theorem rvcWord1_legal {ci : U16} {insn : U32} (h : rvcWord1 ci = some insn) : RvcLegal insn := by
  unfold rvcWord1 at h
  dsimp only at h
  split at h
  case h_4 => split at h <;> cases h <;> simp [RvcLegal]
  case h_5 => exact rvcWordAlu_legal h
  all_goals
    cases h
    simp [RvcLegal]

theorem rvcWord2_legal (ci : U16) : RvcLegal (rvcWord2 ci) := by
  have hjump : RvcLegal (rvcWordJump ci) := by
    unfold rvcWordJump
    dsimp only
    split_ifs <;> simp [RvcLegal]
    rfl
  unfold rvcWord2
  dsimp only
  split
  case h_5 => exact hjump
  all_goals simp [RvcLegal]

theorem rvcWord_legal {ci : U16} {insn : U32} (h : rvcWord ci = some insn) : RvcLegal insn := by
  unfold rvcWord at h
  split at h
  · exact rvcWord0_legal h
  · exact rvcWord1_legal h
  · obtain rfl := Option.some.inj h
    exact rvcWord2_legal ci
  · cases h

section Execute

variable [NetDevice] {insn : U32} {pc nextPc : U64} {c e : Cpu}

/-- Where a jump or a branch goes. -/
def jumpTarget (insn : U32) (pc : U64) (x : BitVec 5 → U64) : Option U64 :=
  match (opcode insn).toNat with
  | 0x6F => some (pc + immJ insn)
  | 0x67 => some ((x (rs1 insn) + immI insn) &&& ~~~1)
  | 0x63 => some (pc + immB insn)
  | _ => none

variable [HostFp]

/-- FLD and FSD are no illegal instructions. -/
theorem rv64FpExec_legal (hop : (opcode insn).toNat = 0x07 ∨ (opcode insn).toNat = 0x27) (hf : funct3 insn = 3) {d : Cpu} :
    rv64FpExec insn c ≠ (.illegal, d) := by
  intro h
  unfold rv64FpExec at h
  rcases hop with hop | hop <;> simp only [hop, hf] at h
  all_goals
    rw [if_neg (by decide), if_pos trivial] at h
    unfold fpAccess at h
    split at h <;> cases h

/-- What a legal instruction does: it goes on or jumps, with the fall-through pc as the link, or traps otherwise than as an
illegal instruction. -/
def Legally (insn : U32) (pc nextPc : U64) (c : Cpu) : EStateM.Result Unit Cpu U64 → Prop
  | .ok next e => (next = nextPc ∨ jumpTarget insn pc c.x = some next) ∧
      ((opcode insn).toNat = 0x67 ∨ (opcode insn).toNat = 0x6F → rd insn ≠ 0 → e.x (rd insn) = nextPc)
  | .error _ d => ∀ m tval, d ≠ trap m excIllegalInsn tval

omit [NetDevice] [HostFp] in
/-- An instruction that does not link. -/
theorem legally_of {r : EStateM.Result Unit Cpu U64} (hlink : (opcode insn).toNat ≠ 0x67 ∧ (opcode insn).toNat ≠ 0x6F)
    (hnext : ∀ m d, r = .ok m d → m = nextPc ∨ jumpTarget insn pc c.x = some m)
    (htrap : ∀ m tval, r ≠ .error () (trap m excIllegalInsn tval)) : Legally insn pc nextPc c r := by
  cases r with
  | ok m d => exact ⟨hnext m d rfl, fun h => absurd h (not_or.2 hlink)⟩
  | error u d =>
    rintro m tval rfl
    exact htrap m tval rfl

/-- **A word of the table is legal.** -/
theorem RvcLegal.legally (h : RvcLegal insn) : Legally insn pc nextPc c (execInsn insn pc nextPc c) := by
  unfold RvcLegal at h
  unfold execInsn
  rw [get_bind_apply]
  split at h
  case h_1 hop | h_2 hop | h_3 hop =>
    simp only [hop]
    refine legally_of (by rw [hop]; decide) (fun m d hr => ?_) fun m tval hr => ?_
    · cases hr
      exact .inl rfl
    · cases hr
  case h_4 hop =>
    simp only [hop]
    refine ⟨.inr ?_, fun _ hrd => wr_self c hrd nextPc⟩
    unfold jumpTarget
    simp only [hop]
  case h_5 hop =>
    simp only [hop]
    refine ⟨.inr ?_, fun _ hrd => wr_self c hrd nextPc⟩
    unfold jumpTarget
    simp only [hop]
  case h_6 hop =>
    simp only [hop]
    refine legally_of (by rw [hop]; decide) (fun m d hr => .inl (execLoad_next hr)) fun m tval hr => ?_
    rw [loadKind_none.1 (execLoad_illegal hr)] at h
    revert h
    decide
  case h_7 hop =>
    simp only [hop]
    refine legally_of (by rw [hop]; decide) (fun m d hr => .inl (execStore_next hr)) fun m tval hr => ?_
    have hnone := storeSize_none.1 (execStore_illegal hr)
    rcases h with h | h <;> rw [h] at hnone <;> exact absurd hnone (by decide)
  case h_8 hop =>
    simp only [hop]
    exact legally_of (by rw [hop]; decide) (fun m d hr => .inl (execFp_next hr)) fun m tval hr =>
      rv64FpExec_legal (.inl hop) h (execFp_illegal hr)
  case h_9 hop =>
    simp only [hop]
    exact legally_of (by rw [hop]; decide) (fun m d hr => .inl (execFp_next hr)) fun m tval hr =>
      rv64FpExec_legal (.inr hop) h (execFp_illegal hr)
  case h_10 hop =>
    simp only [hop]
    unfold aluOpImm32
    rw [h]
    refine legally_of (by rw [hop]; decide) (fun m d hr => ?_) fun m tval hr => ?_
    · cases hr
      exact .inl rfl
    · cases hr
  case h_11 hop =>
    simp only [hop, h.1]
    unfold aluOp32
    rw [if_neg h.2]
    refine legally_of (by rw [hop]; decide) (fun m d hr => ?_) fun m tval hr => ?_
    · cases hr
      exact .inl rfl
    · cases hr
  case h_12 hop =>
    simp only [hop]
    have htarget : jumpTarget insn pc c.x = some (pc + immB insn) := by
      unfold jumpTarget
      simp only [hop]
    obtain ⟨taken, htaken⟩ : ∃ taken, branchTaken (funct3 insn) (c.x (rs1 insn)) (c.x (rs2 insn)) = some taken := by
      rcases h with h | h <;> rw [h] <;> exact ⟨_, rfl⟩
    rw [htaken]
    refine legally_of (by rw [hop]; decide) (fun m d hr => ?_) fun m tval hr => ?_
    · cases hr
      cases taken
      · exact .inl rfl
      · exact .inr htarget
    · cases hr
  case h_13 hop =>
    subst h
    exact fun m tval => trap_ne_illegal (by decide)
  case h_14 => exact h.elim

/-! ## Steps -/

/-- The step of `c` fetches the encoding, which it executes on `d`. -/
structure FetchesHalf (c : Cpu) (ci : U16) (d : Cpu) : Prop where
  short : ci.extractLsb' 0 2 ≠ 3#2
  running : c.halted = false
  fetch : ∃ word m, fetchInsn c.pc (checkBreak c) = .ok word m ∧ word.setWidth 16 = ci ∧ d = logInsn word m

/-- The step does what `insn` does, with two bytes to the next instruction. -/
structure DoesBase (insn : U32) (c d : Cpu) : Prop where
  effect : stepBody c = match execInsn insn c.pc (c.pc + 2) d with
    | .ok next e => .ok () (retire next e)
    | .error u e => .error u e
  next : ∀ e, stepBody c = .ok () e → e.pc = c.pc + 2 ∨ jumpTarget insn c.pc c.x = some e.pc
  link : ∀ e, stepBody c = .ok () e → (opcode insn).toNat = 0x67 ∨ (opcode insn).toNat = 0x6F → rd insn ≠ 0 →
    e.x (rd insn) = c.pc + 2

/-- From every state, the encoding is illegal where it is reserved, and does what its base instruction does elsewhere. -/
def RvcOk (ci : U16) : Prop :=
  ∀ c d, FetchesHalf c ci d → (StepIllegal c ↔ rvcBase ci = none) ∧ ∀ insn, rvcBase ci = some insn → DoesBase insn c d

omit [NetDevice] [HostFp] in
theorem isCompressed_low {word : U32} {ci : U16} (hlow : word.setWidth 16 = ci) (hshort : ci.extractLsb' 0 2 ≠ 3#2) :
    isCompressed word = true := by
  have hbits : word &&& 3 = (ci.extractLsb' 0 2 : BitVec 2).setWidth 32 := by
    have hmask : word &&& (3 : U32) = (word >>> 0) &&& (3 : U32) := by rw [BitVec.ushiftRight_zero]
    rw [hmask, shift_mask word 0 2 3 rfl, ← hlow]
    congr 1
    apply BitVec.eq_of_getLsbD_eq
    intro i hi
    simp only [BitVec.getLsbD_extractLsb', BitVec.getLsbD_setWidth]
    grind
  unfold isCompressed
  rw [hbits]
  generalize (ci.extractLsb' 0 2 : BitVec 2) = q at hshort
  revert q
  decide

/-- **A step on an encoding is that of its word in the table**, or the trap of `illegal_compressed`. -/
theorem FetchesHalf.step {c d : Cpu} {ci : U16} (h : FetchesHalf c ci d) : stepBody c = match rvcWord ci with
    | some insn => match execInsn insn c.pc (c.pc + 2) d with
      | .ok next e => .ok () (retire next e)
      | .error u e => .error u e
    | none => .error () (trap d excIllegalInsn (ci.setWidth 64)) := by
  obtain ⟨word, m, hf, hlow, rfl⟩ := h.fetch
  have hshort := isCompressed_low hlow h.short
  have hexpand : expandInsn word = match rvcWord ci with
      | some insn => pure insn
      | none => trapM excIllegalInsn (ci.setWidth 64) := by
    unfold expandInsn
    rw [hshort, if_pos rfl, hlow]
    show (match rv64Uncompress ci with
      | some insn => pure insn
      | none => trapM excIllegalInsn (ci.setWidth 64)) = _
    rw [rv64Uncompress_eq]
  rw [stepBody_eq, hf]
  dsimp only
  cases hword : rvcWord ci with
  | none =>
    rw [hword] at hexpand
    unfold afterFetch
    rw [hexpand]
    rfl
  | some insn =>
    rw [hword] at hexpand
    rw [afterFetch_insn hexpand, hshort]
    rfl

omit [HostFp] in
theorem FetchesHalf.x {c d : Cpu} {ci : U16} (h : FetchesHalf c ci d) : d.x = c.x := by
  obtain ⟨word, m, hf, -, rfl⟩ := h.fetch
  obtain ⟨t, b, g, rfl⟩ := fetchInsn_frame hf
  rfl

theorem FetchesHalf.doesBase {c d : Cpu} {ci : U16} (h : FetchesHalf c ci d) {insn : U32} (hword : rvcWord ci = some insn) :
    DoesBase insn c d ∧ ¬ StepIllegal c := by
  have hstep := h.step
  simp only [hword] at hstep
  have hlegal : Legally insn c.pc (c.pc + 2) d (execInsn insn c.pc (c.pc + 2) d) := (rvcWord_legal hword).legally
  unfold Legally at hlegal
  rw [h.x] at hlegal
  cases hexec : execInsn insn c.pc (c.pc + 2) d with
  | ok next e =>
    rw [hexec] at hstep hlegal
    refine ⟨⟨by rw [hstep, hexec], fun e' he => ?_, fun e' he => ?_⟩, ?_⟩
    · rw [hstep] at he
      cases he
      exact hlegal.1
    · rw [hstep] at he
      cases he
      exact hlegal.2
    · rintro ⟨m, tval, hill⟩
      rw [hstep] at hill
      cases hill
  | error u e =>
    rw [hexec] at hstep hlegal
    refine ⟨⟨by rw [hstep, hexec], fun e' he => ?_, fun e' he => ?_⟩, ?_⟩
    · rw [hstep] at he
      cases he
    · rw [hstep] at he
      cases he
    · rintro ⟨m, tval, hill⟩
      rw [hstep] at hill
      injection hill with _ hill
      exact hlegal m tval hill

/-- **Where the operands are not reserved, the step does what the table says.** -/
theorem rvcOk {ci : U16} (h : ¬ ReservedOperands ci) : RvcOk ci := by
  intro c d hf
  unfold rvcBase
  rw [if_neg h]
  cases hword : rvcWord ci with
  | none =>
    refine ⟨iff_of_true ?_ rfl, fun _ he => nomatch he⟩
    have hstep := hf.step
    rw [hword] at hstep
    exact ⟨d, _, hstep⟩
  | some insn =>
    obtain ⟨hbase, hlegal⟩ := hf.doesBase hword
    refine ⟨iff_of_false hlegal (by simp), fun insn' he => ?_⟩
    cases he
    exact hbase

omit [NetDevice] [HostFp] in
theorem ReservedOperands.word {ci : U16} (h : ReservedOperands ci) : ∃ insn, rvcWord ci = some insn := by
  unfold ReservedOperands at h
  unfold rvcWord rvcWord0 rvcWord1
  split at h
  all_goals first
    | exact h.elim
    | (rename_i hq hf
       simp only [hq, hf]
       first
         | exact ⟨_, rfl⟩
         | (split <;> exact ⟨_, rfl⟩))

omit [HostFp] in
/-- Reset, with the encoding at the start of RAM. -/
theorem cpuWith_half {ci : U16} (hshort : ci.extractLsb' 0 2 ≠ 3#2) :
    ∃ d, FetchesHalf (cpuWith (ci.setWidth 32) fun _ => 0) ci d := by
  obtain ⟨v, hload, hword⟩ := cpuWith_fetch (ci.setWidth 32) fun _ => 0
  refine ⟨_, hshort, rfl, _, _, fetchInsn_ok hload, ?_, rfl⟩
  rw [hword]
  exact BitVec.setWidth_setWidth_of_le _ (by decide)

/-- **Reserved operands are not noticed**: from reset, the step executes the base instruction. -/
theorem ReservedOperands.not_ok {ci : U16} (h : ReservedOperands ci) (hshort : ci.extractLsb' 0 2 ≠ 3#2) : ¬ RvcOk ci := by
  intro hok
  obtain ⟨d, hf⟩ := cpuWith_half hshort
  obtain ⟨insn, hword⟩ := h.word
  exact (hf.doesBase hword).2 ((hok _ _ hf).1.2 (if_pos h))

/-- **A compressed instruction is executed as its base instruction, or illegal where it is reserved, exactly when its
operands are not reserved ones.** -/
theorem rvcOk_iff (ci : U16) (h : ci.extractLsb' 0 2 ≠ 3#2) : RvcOk ci ↔ ¬ ReservedOperands ci :=
  ⟨fun hok hres => hres.not_ok h hok, rvcOk⟩

end Execute

section Instances

local instance compressedNet : NetDevice := NetDevice.silent
local instance compressedFp : HostFp := HostFp.zero

/-- `c.li a0, 1`. -/
theorem rvcOk_li : (0x4505 : U16).extractLsb' 0 2 ≠ 3#2 ∧ RvcOk 0x4505 :=
  ⟨by decide, (rvcOk_iff 0x4505 (by decide)).2 (by decide)⟩

/-- The all-zero encoding is executed as `addi x8, x2, 0`. -/
theorem not_rvcOk_zero : (0 : U16).extractLsb' 0 2 ≠ 3#2 ∧ ¬ RvcOk 0 := by
  have hzero : ReservedOperands 0 := by decide
  exact ⟨by decide, hzero.not_ok (by decide)⟩

end Instances

end PgLinux
