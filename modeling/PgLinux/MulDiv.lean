import PgLinux.Lib.CInt
import PgLinux.Privilege
/-!
# MulDiv — the M extension against its specification

`mulDivC` and `mulDivC32` evaluate the two `switch`es with the partial arithmetic of C.  The specification is stated on
integers; a divisor of zero and the one signed overflow have the results that the ISA gives them.
-/
namespace PgLinux

open Prog

/-! ## The source, with C's arithmetic -/

/-- The M cases of opcode 0x33; `none` is undefined behaviour. -/
def mulDivC (f3 : BitVec 3) (a b : U64) : Option U64 :=
  match f3.toNat with
  | 0 => some (a * b)
  | 1 => (CInt.mul (a.signExtend 128) (b.signExtend 128)).map fun p => (p.sshiftRight 64).setWidth 64
  -- the signed operand is converted to `__uint128_t`
  | 2 => some (((a.signExtend 128 * b.setWidth 128) >>> 64).setWidth 64)
  | 3 => some (((a.setWidth 128 * b.setWidth 128) >>> 64).setWidth 64)
  | 4 => if b ≠ 0 then CInt.div a b else some (~~~0)
  | 5 => if b ≠ 0 then CInt.udiv a b else some (~~~0)
  | 6 => if b ≠ 0 then CInt.rem a b else some a
  | _ => if b ≠ 0 then CInt.urem a b else some a

/-- The M cases of opcode 0x3B; the inner `none` is an illegal instruction. -/
def mulDivC32 (f3 : BitVec 3) (a b : U32) : Option (Option U32) :=
  match f3.toNat with
  | 0 => some (some (a * b))
  | 4 => (if b ≠ 0 then CInt.div a b else some (-1)).map some
  | 5 => (if b ≠ 0 then CInt.udiv a b else some (-1)).map some
  | 6 => (if b ≠ 0 then CInt.rem a b else some a).map some
  | 7 => (if b ≠ 0 then CInt.urem a b else some a).map some
  | _ => some none

/-! ## The instructions -/

inductive MulDivOp where
  | mul | mulh | mulhsu | mulhu | div | divu | rem | remu | mulw | divw | divuw | remw | remuw
deriving DecidableEq

def MulDivOp.opcode : MulDivOp → BitVec 7
  | .mulw | .divw | .divuw | .remw | .remuw => 0x3B
  | _ => 0x33

def MulDivOp.funct3 : MulDivOp → BitVec 3
  | .mul | .mulw => 0
  | .mulh => 1
  | .mulhsu => 2
  | .mulhu => 3
  | .div | .divw => 4
  | .divu | .divuw => 5
  | .rem | .remw => 6
  | .remu | .remuw => 7

/-- `insn` is an instance of `op`. -/
structure MulDivOp.Encodes (op : MulDivOp) (insn : U32) : Prop where
  opcode : PgLinux.opcode insn = op.opcode
  funct3 : PgLinux.funct3 insn = op.funct3
  funct7 : PgLinux.funct7 insn = 0x01

def low (a : U64) : U32 := a.setWidth 32

/-- What the interpreter computes for rd; `none` is undefined behaviour. -/
def MulDivOp.value (op : MulDivOp) (a b : U64) : Option U64 :=
  if op.opcode = 0x33 then mulDivC op.funct3 a b
  else (mulDivC32 op.funct3 (low a) (low b)).bind fun r => r.map fun v => v.signExtend 64

/-! ## The specification -/

/-- The high half of a product. -/
def high (n : Int) : U64 := BitVec.ofInt 64 (n / 2 ^ 64)

section Spec

variable {w : Nat}

def specDiv (a b : BitVec w) : BitVec w :=
  if b = 0 then BitVec.allOnes w
  else if CInt.DivOverflows a b then BitVec.intMin w
  else BitVec.ofInt w (a.toInt.tdiv b.toInt)

def specRem (a b : BitVec w) : BitVec w :=
  if b = 0 then a else if CInt.DivOverflows a b then 0 else BitVec.ofInt w (a.toInt.tmod b.toInt)

def specDivu (a b : BitVec w) : BitVec w := if b = 0 then BitVec.allOnes w else BitVec.ofNat w (a.toNat / b.toNat)
def specRemu (a b : BitVec w) : BitVec w := if b = 0 then a else BitVec.ofNat w (a.toNat % b.toNat)

end Spec

def MulDivOp.spec (a b : U64) : MulDivOp → U64
  | .mul => BitVec.ofInt 64 (a.toInt * b.toInt)
  | .mulh => high (a.toInt * b.toInt)
  | .mulhsu => high (a.toInt * b.toNat)
  | .mulhu => high (a.toNat * b.toNat)
  | .div => specDiv a b
  | .divu => specDivu a b
  | .rem => specRem a b
  | .remu => specRemu a b
  | .mulw => (BitVec.ofInt 32 ((low a).toInt * (low b).toInt)).signExtend 64
  | .divw => (specDiv (low a) (low b)).signExtend 64
  | .divuw => (specDivu (low a) (low b)).signExtend 64
  | .remw => (specRem (low a) (low b)).signExtend 64
  | .remuw => (specRemu (low a) (low b)).signExtend 64

/-- A signed division whose quotient does not fit in its width. -/
def MulDivOp.Overflows (a b : U64) : MulDivOp → Prop
  | .div | .rem => CInt.DivOverflows a b
  | .divw | .remw => CInt.DivOverflows (low a) (low b)
  | _ => False

/-! ## Products -/

theorem high_ushiftRight (n : Int) : ((BitVec.ofInt 128 n) >>> 64).setWidth 64 = high n := by
  refine BitVec.eq_of_toNat_eq ?_
  unfold high
  rw [BitVec.toNat_setWidth, BitVec.toNat_ushiftRight, BitVec.toNat_ofInt, BitVec.toNat_ofInt, Nat.shiftRight_eq_div_pow]
  omega

theorem high_sshiftRight (n : Int) : ((BitVec.ofInt 128 n).sshiftRight 64).setWidth 64 = high n := by
  rw [← high_ushiftRight]
  refine BitVec.eq_of_getLsbD_eq fun i hi => ?_
  have h128 : 64 + i < 128 := by omega
  have hge : ¬ 128 ≤ i := by omega
  simp [BitVec.getLsbD_sshiftRight, hi, h128, hge]

theorem signExtend_128 (a : U64) : a.signExtend 128 = BitVec.ofInt 128 a.toInt := by
  rw [← BitVec.toInt_signExtend_of_le (v := 128) (by decide), BitVec.ofInt_toInt]

theorem setWidth_128 (a : U64) : a.setWidth 128 = BitVec.ofInt 128 a.toNat := by
  refine BitVec.eq_of_toNat_eq ?_
  rw [BitVec.toNat_setWidth, BitVec.toNat_ofInt]
  omega

theorem mul_ofInt {w : Nat} (a b : BitVec w) : a * b = BitVec.ofInt w (a.toInt * b.toInt) := by
  rw [BitVec.ofInt_mul, BitVec.ofInt_toInt, BitVec.ofInt_toInt]

theorem mulh_spec (a b : U64) :
    ((CInt.mul (a.signExtend 128) (b.signExtend 128)).map fun p => (p.sshiftRight 64).setWidth 64) =
      some (high (a.toInt * b.toInt)) := by
  rw [← high_sshiftRight]
  exact congrArg (Option.map _) (CInt.mul_signExtend (by decide) a b)

theorem mulhsu_spec (a b : U64) :
    ((a.signExtend 128 * b.setWidth 128) >>> 64).setWidth 64 = high (a.toInt * b.toNat) := by
  rw [signExtend_128, setWidth_128, ← BitVec.ofInt_mul, high_ushiftRight]

theorem mulhu_spec (a b : U64) :
    ((a.setWidth 128 * b.setWidth 128) >>> 64).setWidth 64 = high (a.toNat * b.toNat) := by
  rw [setWidth_128, setWidth_128, ← BitVec.ofInt_mul, high_ushiftRight]

/-! ## Quotients -/

section Quotients

variable {w : Nat} {a b : BitVec w}

theorem not_divOverflows_zero (hw : 0 < w) (hb : b = 0) : ¬ CInt.DivOverflows a b := by
  rintro ⟨-, hones⟩
  have : (0#w : BitVec w).toNat = (BitVec.allOnes w).toNat :=
    congrArg BitVec.toNat (hb.symm.trans (hones.trans BitVec.neg_one_eq_allOnes))
  rw [BitVec.toNat_allOnes, BitVec.toNat_ofNat, Nat.zero_mod] at this
  have := Nat.one_lt_two_pow (Nat.pos_iff_ne_zero.1 hw)
  omega

/-- **A guarded division gives the specified quotient, unless it overflows.** -/
theorem div_spec_iff (hw : 0 < w) :
    (if b ≠ 0 then CInt.div a b else some (BitVec.allOnes w)) = some (specDiv a b) ↔ ¬ CInt.DivOverflows a b := by
  unfold specDiv
  by_cases hb : b = 0
  · rw [if_neg (not_not.2 hb), if_pos hb]
    simpa using not_divOverflows_zero hw hb
  · rw [if_pos hb, if_neg hb, CInt.div_eq]
    by_cases ho : CInt.DivOverflows a b
    · simp [ho]
    · rw [if_neg (not_or.2 ⟨hb, ho⟩), if_neg ho, ← CInt.toInt_sdiv ho, BitVec.ofInt_toInt]
      simpa using ho

theorem rem_spec_iff (hw : 0 < w) :
    (if b ≠ 0 then CInt.rem a b else some a) = some (specRem a b) ↔ ¬ CInt.DivOverflows a b := by
  unfold specRem
  by_cases hb : b = 0
  · rw [if_neg (not_not.2 hb), if_pos hb]
    simpa using not_divOverflows_zero hw hb
  · rw [if_pos hb, if_neg hb, CInt.rem_eq]
    by_cases ho : CInt.DivOverflows a b
    · simp [ho]
    · rw [if_neg (not_or.2 ⟨hb, ho⟩), if_neg ho, ← BitVec.toInt_srem, BitVec.ofInt_toInt]
      simpa using ho

theorem udiv_spec : (if b ≠ 0 then CInt.udiv a b else some (BitVec.allOnes w)) = some (specDivu a b) := by
  unfold specDivu CInt.udiv
  by_cases hb : b = 0
  · rw [if_neg (not_not.2 hb), if_pos hb]
  · rw [if_pos hb, if_neg hb, if_neg hb, ← BitVec.toNat_udiv, BitVec.ofNat_toNat, BitVec.setWidth_eq]

theorem urem_spec : (if b ≠ 0 then CInt.urem a b else some a) = some (specRemu a b) := by
  unfold specRemu CInt.urem
  by_cases hb : b = 0
  · rw [if_neg (not_not.2 hb), if_pos hb]
  · rw [if_pos hb, if_neg hb, if_neg hb, ← BitVec.toNat_umod, BitVec.ofNat_toNat, BitVec.setWidth_eq]

end Quotients

/-! ## The instructions meet the specification -/

/-- The W forms of an evaluation sign-extend its result. -/
theorem word_value_iff {r : Option U32} {v : U32} :
    ((r.map some).bind fun r => r.map fun v => v.signExtend 64) = some (v.signExtend 64) ↔ r = some v := by
  cases r with
  | none => simp
  | some u =>
    refine ⟨fun h => ?_, fun h => by rw [h]; rfl⟩
    have hext : u.signExtend 64 = v.signExtend 64 := Option.some.inj h
    have hint : (u.signExtend 64).toInt = (v.signExtend 64).toInt := congrArg BitVec.toInt hext
    rw [BitVec.toInt_signExtend_of_le (by decide), BitVec.toInt_signExtend_of_le (by decide)] at hint
    exact congrArg some (BitVec.eq_of_toInt_eq hint)

/-- **The arithmetic of an instruction is defined and right exactly when its quotient does not overflow.** -/
theorem MulDivOp.value_eq_spec_iff (op : MulDivOp) (a b : U64) : op.value a b = some (op.spec a b) ↔ ¬ op.Overflows a b := by
  cases op with
  | mul => exact iff_of_true (congrArg some (mul_ofInt a b)) id
  | mulh => exact iff_of_true (mulh_spec a b) id
  | mulhsu => exact iff_of_true (congrArg some (mulhsu_spec a b)) id
  | mulhu => exact iff_of_true (congrArg some (mulhu_spec a b)) id
  | div => exact div_spec_iff (by decide)
  | divu => exact iff_of_true udiv_spec id
  | rem => exact rem_spec_iff (by decide)
  | remu => exact iff_of_true urem_spec id
  | mulw => exact iff_of_true (word_value_iff.2 (congrArg some (mul_ofInt (low a) (low b)))) id
  | divw => exact word_value_iff.trans (div_spec_iff (by decide))
  | divuw => exact iff_of_true (word_value_iff.2 udiv_spec) id
  | remw => exact word_value_iff.trans (rem_spec_iff (by decide))
  | remuw => exact iff_of_true (word_value_iff.2 urem_spec) id

/-! ## The step -/

theorem guarded_eq {α : Type} {p : Prop} [Decidable p] {m : Option α} {x d v : α} (hm : ∀ u, m = some u → x = u)
    (h : (if p then m else some d) = some v) : (if p then x else d) = v := by
  by_cases hp : p
  · rw [if_pos hp] at h ⊢
    exact hm v h
  · rw [if_neg hp] at h ⊢
    exact Option.some.inj h

/-- Where C defines a value, the interpreter's is that value. -/
theorem mulDivC_eq {f3 : BitVec 3} {a b v : U64} (h : mulDivC f3 a b = some v) : mulDiv f3 a b = v := by
  obtain rfl | rfl | rfl | rfl | rfl | rfl | rfl | rfl := funct3_cases f3
  · exact Option.some.inj h
  · have hspec : some (high (a.toInt * b.toInt)) = some v := (mulh_spec a b).symm.trans h
    show ((a.signExtend 128 * b.signExtend 128) >>> 64).setWidth 64 = v
    rw [signExtend_128, signExtend_128, ← BitVec.ofInt_mul, high_ushiftRight]
    exact Option.some.inj hspec
  · exact Option.some.inj h
  · exact Option.some.inj h
  · exact guarded_eq (fun _ => CInt.div_some) h
  · exact guarded_eq (fun _ => CInt.udiv_some) h
  · exact guarded_eq (fun _ => CInt.rem_some) h
  · exact guarded_eq (fun _ => CInt.urem_some) h

theorem mulDivC32_eq {f3 : BitVec 3} {a b : U32} {r : Option U32} (h : mulDivC32 f3 a b = some r) : mulDiv32 f3 a b = r := by
  have hsome {m : Option U32} {x : U32} (hm : ∀ u, m = some u → x = u) (hr : m.map some = some r) : some x = r := by
    obtain ⟨u, hu, rfl⟩ := Option.map_eq_some_iff.1 hr
    exact congrArg some (hm u hu)
  obtain rfl | rfl | rfl | rfl | rfl | rfl | rfl | rfl := funct3_cases f3
  · exact Option.some.inj h
  · exact Option.some.inj h
  · exact Option.some.inj h
  · exact Option.some.inj h
  · exact hsome (fun _ => guarded_eq fun _ => CInt.div_some) h
  · exact hsome (fun _ => guarded_eq fun _ => CInt.udiv_some) h
  · exact hsome (fun _ => guarded_eq fun _ => CInt.rem_some) h
  · exact hsome (fun _ => guarded_eq fun _ => CInt.urem_some) h

section Step

variable [NetDevice] [HostFp]

/-- **Where the arithmetic is defined, an M instruction writes its value to rd.** -/
theorem execInsn_mulDiv {op : MulDivOp} {insn : U32} (h : op.Encodes insn) {c : Cpu} {v : U64}
    (hv : op.value (c.x (rs1 insn)) (c.x (rs2 insn)) = some v) (pc nextPc : U64) :
    execInsn insn pc nextPc c = .ok nextPc (c.wr (rd insn) v) := by
  unfold execInsn
  rw [get_bind_apply, h.opcode]
  unfold MulDivOp.value at hv
  by_cases hop : op.opcode = 0x33
  · rw [if_pos hop] at hv
    rw [hop]
    show EStateM.Result.ok nextPc (c.wr (rd insn) (aluOp (funct7 insn) (funct3 insn) _ _)) = _
    unfold aluOp
    rw [if_pos h.funct7, h.funct3, mulDivC_eq hv]
  · rw [if_neg hop] at hv
    have hop32 : op.opcode = 0x3B := by
      revert hop
      cases op <;> decide
    obtain ⟨r, hr, hmap⟩ := Option.bind_eq_some_iff.1 hv
    obtain ⟨u, rfl, rfl⟩ := Option.map_eq_some_iff.1 hmap
    rw [hop32]
    show (do wr32 insn (aluOp32 (funct7 insn) (funct3 insn) _ _); return nextPc : Exec U64) c = _
    unfold aluOp32
    rw [if_pos h.funct7, h.funct3]
    have h32 := mulDivC32_eq hr
    unfold low at h32
    rw [h32]
    rfl

/-- A step that executes `op` on `c` computes with defined arithmetic, and leaves the specified result in rd. -/
structure MulDivOk (op : MulDivOp) (c : Cpu) (insn : U32) : Prop where
  value : op.value (c.x (rs1 insn)) (c.x (rs2 insn)) = some (op.spec (c.x (rs1 insn)) (c.x (rs2 insn)))
  result : (rv64Step c).x = (c.wr (rd insn) (op.spec (c.x (rs1 insn)) (c.x (rs2 insn)))).x

/-- **A step of the M extension is right exactly when its quotient does not overflow.** -/
theorem mulDivOk_iff {op : MulDivOp} {c d : Cpu} {word insn : U32} (hf : Fetches c word insn d) (h : op.Encodes insn) :
    MulDivOk op c insn ↔ ¬ op.Overflows (c.x (rs1 insn)) (c.x (rs2 insn)) := by
  rw [← op.value_eq_spec_iff]
  refine ⟨MulDivOk.value, fun hvalue => ⟨hvalue, ?_⟩⟩
  obtain ⟨t, b, g, rfl⟩ := hf.frame
  rw [hf.rv64Step_ok (execInsn_mulDiv h (by exact hvalue) _ _)]
  rfl

end Step

section Divisions

local instance divisionNet : NetDevice := NetDevice.silent
local instance divisionFp : HostFp := HostFp.zero

/-- Machine mode, about to execute DIV x3, x1, x2. -/
def divCpu (a b : U64) : Cpu :=
  { rv64Init (Mem.write (fun _ => 0) 0 4 0x0220C1B3) 0x1000 with x := setAt (setAt (fun _ => 0) 1 a) 2 b }

theorem divCpu_fetches (a b : U64) : Fetches (divCpu a b) 0x0220C1B3 0x0220C1B3 (divCpu a b) := by
  have hmem : ((Mem.write (fun _ => 0) 0 4 ((0x0220C1B3 : U32).setWidth 64)).read (ramBase - ramBase) 4).setWidth 32 = 0x0220C1B3 := by
    rw [BitVec.sub_self]
    exact Mem.read_word _ 0 0x0220C1B3
  exact fetches_word rfl rfl (rv64Translate_machine rfl _ .exec) rfl (show crossesPage ramBase 4 = false by decide)
    (show inRam 0x1000 ramBase = true by decide) hmem rfl

theorem div_encodes : MulDivOp.div.Encodes 0x0220C1B3 := ⟨rfl, rfl, rfl⟩

/-- The most negative number divided by -1 traps the host. -/
theorem not_mulDivOk_min : ∃ op c d word insn, Fetches c word insn d ∧ op.Encodes insn ∧ ¬ MulDivOk op c insn :=
  ⟨.div, _, _, _, _, divCpu_fetches (1 <<< 63) (-1), div_encodes, fun h => absurd h.value (by decide)⟩

/-- -7 / 2 is -3. -/
theorem mulDivOk_quotient : MulDivOk .div (divCpu (-7) 2) 0x0220C1B3 :=
  (mulDivOk_iff (divCpu_fetches _ _) div_encodes).2 (by show ¬ CInt.DivOverflows _ _; decide)

end Divisions

end PgLinux
