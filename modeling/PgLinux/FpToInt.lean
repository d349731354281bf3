import PgLinux.FpBits
/-!
# FpToInt — conversion from floating point to integers

RISC-V rounds in the direction of the instruction and clamps to the target type.  `rv64_fp_exec` casts, which drops the
fraction, whatever the direction, and is undefined where the target type does not hold the integral part.
-/
namespace PgLinux

open Ieee

/-! ## The rule -/

/-- The target types: W, WU, L and LU. -/
inductive IntType where
  | w | wu | l | lu
deriving DecidableEq

namespace IntType

def min : IntType → ℤ
  | w => -2 ^ 31
  | l => -2 ^ 63
  | wu | lu => 0

def max : IntType → ℤ
  | w => 2 ^ 31 - 1
  | wu => 2 ^ 32 - 1
  | l => 2 ^ 63 - 1
  | lu => 2 ^ 64 - 1

/-- Whether the type holds `n`. -/
def Holds (t : IntType) (n : ℤ) : Prop := t.min ≤ n ∧ n ≤ t.max

instance (t : IntType) (n : ℤ) : Decidable (t.Holds n) := inferInstanceAs (Decidable (_ ∧ _))

/-- The register for an integer of the type; the 32-bit ones are sign-extended, signed or not. -/
def toReg (t : IntType) (n : ℤ) : U64 :=
  match t with
  | w | wu => (BitVec.ofInt 32 n).signExtend 64
  | l | lu => BitVec.ofInt 64 n

def clamp (t : IntType) (n : ℤ) : ℤ := Max.max t.min (Min.min t.max n)

/-- Conversion as RISC-V lays it down. -/
def convert (t : IntType) (r : Rounding) : Value → ℤ
  | .nan => t.max
  | .inf neg => if neg then t.min else t.max
  | .fin q => t.clamp (r.round q)

end IntType

/-- The target type in the `rs2` field. -/
def intType (sel : BitVec 5) : Option IntType :=
  match sel.toNat with
  | 0 => some .w
  | 1 => some .wu
  | 2 => some .l
  | 3 => some .lu
  | _ => none

/-- A rounding mode of an instruction or of `frm`. -/
def roundingOf (rm : BitVec 3) : Option Rounding :=
  match rm.toNat with
  | 0 => some .nearestEven
  | 1 => some .towardZero
  | 2 => some .down
  | 3 => some .up
  | 4 => some .nearestAway
  | _ => none

/-- The direction of an instruction: its own, or that of `frm`. -/
def insnRounding (c : Cpu) (insn : U32) : Option Rounding :=
  if funct3 insn = 7 then roundingOf (c.fcsr.extractLsb' 5 3) else roundingOf (funct3 insn)

/-- Conversions from single and from double precision. -/
def IsFcvtInt (insn : U32) : Prop := opcode insn = 0x53 ∧ (funct7 insn = 0x60 ∨ funct7 insn = 0x61)

instance (insn : U32) : Decidable (IsFcvtInt insn) := inferInstanceAs (Decidable (_ ∧ _))

/-- What the operand stands for; a single that is not boxed is a NaN. -/
def fcvtSource (c : Cpu) (insn : U32) : Value :=
  if funct7 insn = 0x61 then decode binary64 (c.f (rs1 insn))
  else if (c.f (rs1 insn)).extractLsb' 32 32 = BitVec.allOnes 32 then decode binary32 ((c.f (rs1 insn)).extractLsb' 0 32)
  else .nan

/-- A cast of C is defined where its type holds the integral part. -/
def CastDefined (t : IntType) (v : Value) : Prop := ∃ q, v = .fin q ∧ t.Holds (truncate q)

section Law

variable [NetDevice] [HostFp]

/-- The conversion casts only where the cast is defined, and writes the converted value to `rd`; flags are left open. -/
def Converts (insn : U32) (c : Cpu) : Prop :=
  ∀ t r, intType (rs2 insn) = some t → insnRounding c insn = some r →
    CastDefined t (fcvtSource c insn) ∧
      ∃ flags, rv64FpExec insn c =
        (.ok, { setX (rd insn) (t.toReg (t.convert r (fcvtSource c insn))) (markFsDirty c) with fcsr := flags })

end Law

/-- The casts of C from a floating type in the format, where they are defined. -/
structure FpOps.Casts {w : Nat} (F : Format w) (o : FpOps w) : Prop where
  toInt32 : ∀ v q, decode F v = .fin q → IntType.w.Holds (truncate q) → o.toInt32 v = BitVec.ofInt 32 (truncate q)
  toUInt32 : ∀ v q, decode F v = .fin q → IntType.wu.Holds (truncate q) → o.toUInt32 v = BitVec.ofInt 32 (truncate q)
  toInt64 : ∀ v q, decode F v = .fin q → IntType.l.Holds (truncate q) → o.toInt64 v = BitVec.ofInt 64 (truncate q)
  toUInt64 : ∀ v q, decode F v = .fin q → IntType.lu.Holds (truncate q) → o.toUInt64 v = BitVec.ofInt 64 (truncate q)

/-- The operands that are converted right: finite ones less than one past the ends of the type, in a direction that drops
the fraction or else at the ends; for WU, below 2^31. -/
def CastSuffices (t : IntType) (r : Rounding) (v : Value) : Prop :=
  ∃ q, v = .fin q ∧ (t.min - 1 < q ∧ q < t.max + 1) ∧ (t = .wu → q < 2 ^ 31) ∧ (r.Drops q ∨ q ≤ t.min ∨ t.max ≤ q)

/-! ## Clamping -/

theorem truncate_lt {q : ℚ} {n : ℤ} (hn : 0 < n) : truncate q < n ↔ q < n := by
  unfold truncate
  split
  next => exact Int.floor_lt
  next h =>
    have hq : q < n := (not_le.1 h).trans (by exact_mod_cast hn)
    have hceil : ⌈q⌉ ≤ 0 := Int.ceil_le.2 (by exact_mod_cast (not_le.1 h).le)
    exact iff_of_true (by omega) hq

theorem lt_truncate {q : ℚ} {n : ℤ} (hn : n < 0) : n < truncate q ↔ n < q := by
  unfold truncate
  split
  next h =>
    have hq : n < q := (show (n : ℚ) < 0 by exact_mod_cast hn).trans_le h
    have hfloor : 0 ≤ ⌊q⌋ := Int.floor_nonneg.2 h
    exact iff_of_true (by omega) hq
  next => exact Int.lt_ceil

/-- The cast is defined less than one past the ends of the type. -/
theorem IntType.holds_truncate (t : IntType) (q : ℚ) : t.Holds (truncate q) ↔ t.min - 1 < q ∧ q < t.max + 1 := by
  have hmin : t.min - 1 < 0 := by cases t <;> decide
  have hmax : 0 < t.max + 1 := by cases t <;> decide
  have hlo := lt_truncate (q := q) hmin
  have hhi := truncate_lt (q := q) hmax
  push_cast at hlo hhi
  rw [← hlo, ← hhi]
  unfold Holds
  omega

section Clamping

variable {t : IntType} {q : ℚ}

theorem IntType.min_le_max (t : IntType) : t.min ≤ t.max := by cases t <;> decide

/-- **Clamping hides a direction that keeps the fraction only past the ends of the type.** -/
theorem IntType.clamp_round (h : t.Holds (truncate q)) (r : Rounding) :
    t.clamp (r.round q) = truncate q ↔ r.Drops q ∨ q ≤ t.min ∨ t.max ≤ q := by
  rw [← r.round_eq_truncate]
  obtain ⟨hlo, hhi⟩ := h
  have hle := t.min_le_max
  by_cases hmin : q ≤ t.min
  · -- both are the least integer
    have hround := r.round_le hmin
    have htrunc : truncate q ≤ t.min := Rounding.towardZero.round_le hmin
    refine iff_of_true ?_ (.inr (.inl hmin))
    unfold IntType.clamp
    omega
  by_cases hmax : t.max ≤ q
  · have hround := r.le_round hmax
    have htrunc : t.max ≤ truncate q := Rounding.towardZero.le_round hmax
    refine iff_of_true ?_ (.inr (.inr hmax))
    unfold IntType.clamp
    omega
  · have hlo' := r.le_round (not_le.1 hmin).le
    have hhi' := r.round_le (not_le.1 hmax).le
    have hclamp : t.clamp (r.round q) = r.round q := by
      unfold IntType.clamp
      omega
    rw [hclamp]
    simp [hmin, hmax]

end Clamping

/-! ## Registers of integers -/

theorem signExtend_inj {a b : U32} : a.signExtend 64 = b.signExtend 64 ↔ a = b := by
  constructor
  · intro h
    have hint := congrArg BitVec.toInt h
    rw [BitVec.toInt_signExtend_of_le (by decide), BitVec.toInt_signExtend_of_le (by decide)] at hint
    exact BitVec.eq_of_toInt_eq hint
  · intro h
    rw [h]

/-- Integers less than `2 ^ w` apart differ in their lower `w` bits. -/
theorem ofInt_inj {w : ℕ} {n m : ℤ} (h : |n - m| < 2 ^ w) : BitVec.ofInt w n = BitVec.ofInt w m ↔ n = m := by
  constructor
  · intro heq
    have hmod : n % (2 ^ w : ℕ) = m % (2 ^ w : ℕ) := by
      have hn := congrArg BitVec.toInt heq
      rw [BitVec.toInt_ofInt, BitVec.toInt_ofInt] at hn
      rw [← Int.bmod_emod, hn, Int.bmod_emod]
    have hdvd : (2 ^ w : ℤ) ∣ n - m := by
      have hzero := Int.dvd_of_emod_eq_zero (Int.emod_eq_emod_iff_emod_sub_eq_zero.1 hmod)
      push_cast at hzero
      exact hzero
    exact sub_eq_zero.1 (Int.eq_zero_of_abs_lt_dvd hdvd h)
  · intro heq
    rw [heq]

/-- Integers of one type have different registers. -/
theorem IntType.toReg_inj {t : IntType} {n m : ℤ} (hn : t.Holds n) (hm : t.Holds m) : t.toReg n = t.toReg m ↔ n = m := by
  obtain ⟨hn0, hn1⟩ := hn
  obtain ⟨hm0, hm1⟩ := hm
  cases t <;> simp only [IntType.min, IntType.max] at hn0 hn1 hm0 hm1
  case w => exact signExtend_inj.trans (ofInt_inj (abs_lt.2 ⟨by omega, by omega⟩))
  case wu => exact signExtend_inj.trans (ofInt_inj (abs_lt.2 ⟨by omega, by omega⟩))
  case l => exact ofInt_inj (abs_lt.2 ⟨by omega, by omega⟩)
  case lu => exact ofInt_inj (abs_lt.2 ⟨by omega, by omega⟩)

/-- The register that the source writes: an unsigned 32-bit integer is zero-extended. -/
def IntType.castReg (t : IntType) (n : ℤ) : U64 :=
  match t with
  | .wu => (BitVec.ofInt 32 n).setWidth 64
  | t => t.toReg n

theorem IntType.castReg_of_ne {t : IntType} (ht : t ≠ .wu) (n : ℤ) : t.castReg n = t.toReg n := by
  cases t with
  | wu => exact absurd rfl ht
  | w => rfl
  | l => rfl
  | lu => rfl

/-- Zero and sign extension agree on the lower half. -/
theorem zeroExtend_signExtend {n m : ℤ} (hn : IntType.wu.Holds n) (hm : IntType.wu.Holds m) :
    (BitVec.ofInt 32 n).setWidth 64 = (BitVec.ofInt 32 m).signExtend 64 ↔ n < 2 ^ 31 ∧ m = n := by
  obtain ⟨hn0, hn1⟩ := hn
  obtain ⟨hm0, hm1⟩ := hm
  simp only [IntType.min, IntType.max] at hn0 hn1 hm0 hm1
  have hzero : ((BitVec.ofInt 32 n).setWidth 64).toInt = n := by
    rw [BitVec.toInt_setWidth, BitVec.toNat_ofInt, Int.bmod_eq_of_le] <;> omega
  have hsign : ((BitVec.ofInt 32 m).signExtend 64).toInt = if m < 2 ^ 31 then m else m - 2 ^ 32 := by
    rw [BitVec.toInt_signExtend_of_le (by decide), BitVec.toInt_ofInt]
    unfold Int.bmod
    dsimp only
    split_ifs <;> omega
  rw [← BitVec.toInt_inj, hzero, hsign]
  split_ifs <;> omega

theorem IntType.holds_clamp (t : IntType) (n : ℤ) : t.Holds (t.clamp n) := by
  have hle := t.min_le_max
  unfold Holds clamp
  omega

/-- **What the source writes is right** in a direction that clamping makes agree, and for WU in the lower half. -/
theorem IntType.castReg_iff {t : IntType} {q : ℚ} (h : t.Holds (truncate q)) (r : Rounding) :
    t.castReg (truncate q) = t.toReg (t.convert r (.fin q)) ↔
      (t = .wu → q < 2 ^ 31) ∧ (r.Drops q ∨ q ≤ t.min ∨ t.max ≤ q) := by
  have hclamp := IntType.clamp_round h r
  have hholds := t.holds_clamp (r.round q)
  rw [← hclamp]
  show t.castReg (truncate q) = t.toReg (t.clamp (r.round q)) ↔ _
  by_cases ht : t = .wu
  · subst ht
    have hhalf : truncate q < 2 ^ 31 ↔ q < 2 ^ 31 := by
      have hlt := truncate_lt (q := q) (show (0 : ℤ) < 2 ^ 31 by decide)
      push_cast at hlt
      exact hlt
    show (BitVec.ofInt 32 (truncate q)).setWidth 64 = (BitVec.ofInt 32 _).signExtend 64 ↔ _
    rw [zeroExtend_signExtend h hholds, hhalf]
    simp
  · rw [IntType.castReg_of_ne ht, IntType.toReg_inj h hholds, eq_comm]
    simp [ht]

/-! ## Execution -/

theorem FpOps.Casts.fpToInt {w : Nat} {F : Format w} {o : FpOps w} (ho : o.Casts F) {sel : BitVec 5} {t : IntType}
    (ht : intType sel = some t) {v : BitVec w} {q : ℚ} (hv : decode F v = .fin q) (h : t.Holds (truncate q)) :
    PgLinux.fpToInt o sel v = t.castReg (truncate q) := by
  unfold intType at ht
  split at ht
  case h_1 hsel =>
    cases ht
    obtain rfl : sel = 0 := BitVec.eq_of_toNat_eq hsel
    show (o.toInt32 v).signExtend 64 = _
    rw [ho.toInt32 v q hv h]
    rfl
  case h_2 hsel =>
    cases ht
    obtain rfl : sel = 1 := BitVec.eq_of_toNat_eq hsel
    show (o.toUInt32 v).setWidth 64 = _
    rw [ho.toUInt32 v q hv h]
    rfl
  case h_3 hsel =>
    cases ht
    obtain rfl : sel = 2 := BitVec.eq_of_toNat_eq hsel
    exact ho.toInt64 v q hv h
  case h_4 hsel =>
    cases ht
    obtain rfl : sel = 3 := BitVec.eq_of_toNat_eq hsel
    exact ho.toUInt64 v q hv h
  case h_5 => cases ht

theorem decode_unbox (v : U64) : decode binary32 (unbox v) =
    if v.extractLsb' 32 32 = BitVec.allOnes 32 then decode binary32 (v.extractLsb' 0 32) else .nan := by
  have hnan : decode binary32 (canonicalNan binary32) = .nan := by decide +kernel
  unfold unbox
  split
  · rw [BitVec.setWidth_eq_extractLsb' (by decide)]
  · exact hnan

section Execution

variable [NetDevice] [HostFp] {insn : U32} {c : Cpu}

/-- A conversion casts the value of its operand. -/
theorem rv64FpExec_cast (hs : HostFp.s.Casts binary32) (hd : HostFp.d.Casts binary64) (hi : IsFcvtInt insn) {t : IntType}
    (ht : intType (rs2 insn) = some t) {q : ℚ} (hq : fcvtSource c insn = .fin q) (h : t.Holds (truncate q)) :
    rv64FpExec insn c = (.ok, setX (rd insn) (t.castReg (truncate q)) (markFsDirty c)) := by
  obtain ⟨hop, hf | hf⟩ := hi
  · have hsource : decode binary32 (rdF (markFsDirty c) (rs1 insn)) = .fin q := by
      rw [rdF_eq, decode_unbox, ← hq]
      unfold fcvtSource
      rw [hf]
      rfl
    rw [rv64FpExec_arith hop, ← hs.fpToInt ht hsource h]
    unfold fpArithS
    rw [hf]
    rfl
  · have hsource : decode binary64 (c.f (rs1 insn)) = .fin q := by
      rw [← hq]
      unfold fcvtSource
      rw [hf]
      rfl
    rw [rv64FpExec_arith hop, ← hd.fpToInt ht hsource h]
    unfold fpArithS fpArithD
    rw [hf]
    rfl

theorem cast_writes (hs : HostFp.s.Casts binary32) (hd : HostFp.d.Casts binary64) (hi : IsFcvtInt insn) {t : IntType}
    (ht : intType (rs2 insn) = some t) {q : ℚ} (hq : fcvtSource c insn = .fin q) (h : t.Holds (truncate q)) (r : Rounding) :
    (∃ flags, rv64FpExec insn c =
        (.ok, { setX (rd insn) (t.toReg (t.convert r (fcvtSource c insn))) (markFsDirty c) with fcsr := flags })) ↔
      (t = .wu → q < 2 ^ 31) ∧ (r.Drops q ∨ q ≤ t.min ∨ t.max ≤ q) := by
  rw [rv64FpExec_cast hs hd hi ht hq h, hq, ← IntType.castReg_iff h r, ← setX_delivers (rd insn) _ _ (markFsDirty c)]
  simp

/-- **A conversion is right exactly where a cast is**: for finite operands less than one past the ends of the type, in a
direction that drops the fraction or else at the ends, and for WU below 2^31. -/
theorem converts_iff (hs : HostFp.s.Casts binary32) (hd : HostFp.d.Casts binary64) (hi : IsFcvtInt insn) {t : IntType}
    (ht : intType (rs2 insn) = some t) {r : Rounding} (hr : insnRounding c insn = some r) :
    Converts insn c ↔ CastSuffices t r (fcvtSource c insn) := by
  constructor
  · intro h
    obtain ⟨⟨q, hq, hh⟩, hflags⟩ := h t r ht hr
    exact ⟨q, hq, (t.holds_truncate q).1 hh, (cast_writes hs hd hi ht hq hh r).1 hflags⟩
  · rintro ⟨q, hq, hbounds, hcond⟩ t' r' ht' hr'
    obtain rfl := Option.some.inj (ht.symm.trans ht')
    obtain rfl := Option.some.inj (hr.symm.trans hr')
    have hh := (t.holds_truncate q).2 hbounds
    exact ⟨⟨q, hq, hh⟩, (cast_writes hs hd hi ht hq hh r).2 hcond⟩

end Execution

/-! ## Two conversions -/

theorem FpOps.host_casts {w : Nat} (F : Format w) : (FpOps.host F).Casts F where
  toInt32 v q h _ := by
    show BitVec.ofInt 32 (integralPart (decode F v)) = _
    rw [h]
    rfl
  toUInt32 v q h _ := by
    show BitVec.ofInt 32 (integralPart (decode F v)) = _
    rw [h]
    rfl
  toInt64 v q h _ := by
    show BitVec.ofInt 64 (integralPart (decode F v)) = _
    rw [h]
    rfl
  toUInt64 v q h _ := by
    show BitVec.ofInt 64 (integralPart (decode F v)) = _
    rw [h]
    rfl

section Instances

local instance castNet : NetDevice := NetDevice.silent
local instance castFp : HostFp := HostFp.host

/-- FCVT.W.S x1, f0 of 1, to the nearest integer. -/
theorem converts_one : Converts 0xC00000D3 (fpFilled 0xFFFFFFFF3F800000) := by
  have hsource : fcvtSource (fpFilled 0xFFFFFFFF3F800000) 0xC00000D3 = .fin 1 := by decide +kernel
  have hdrops : Rounding.nearestEven.Drops (1 : ℚ) := .inl (by decide +kernel)
  refine (converts_iff (FpOps.host_casts binary32) (FpOps.host_casts binary64) (by decide) rfl rfl).2 ⟨1, hsource, ?_⟩
  exact ⟨by decide +kernel, nofun, .inl hdrops⟩

/-- FCVT.WU.S x1, f0 of 2^31, toward zero. -/
theorem not_converts_half : ¬ ∀ insn c, IsFcvtInt insn → Converts insn c := by
  intro h
  have hsource : fcvtSource (fpFilled 0xFFFFFFFF4F000000) 0xC01010D3 = .fin (2 ^ 31) := by decide +kernel
  have hholds : IntType.wu.Holds (truncate (2 ^ 31 : ℚ)) := by decide +kernel
  have hi : IsFcvtInt 0xC01010D3 := by decide
  obtain ⟨-, hflags⟩ := h 0xC01010D3 (fpFilled 0xFFFFFFFF4F000000) hi .wu .towardZero rfl rfl
  have hcond := (cast_writes (FpOps.host_casts binary32) (FpOps.host_casts binary64) hi rfl hsource hholds _).1 hflags
  exact lt_irrefl _ (hcond.1 rfl)

end Instances

end PgLinux
