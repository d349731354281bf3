import PgLinux.Privilege
/-!
# Atomics — the A extension (opcode 0x2F)

`rv64_step` computes an AMO on the 64-bit registers in both widths: on the sign-extended old value and the whole of rs2.
-/
namespace PgLinux

open Prog

/-! ## The operations -/

inductive AmoOp where
  | swap | add | xor | and | or | min | max | minu | maxu
deriving DecidableEq

def AmoOp.funct5 : AmoOp → BitVec 5
  | .swap => 0x01
  | .add => 0x00
  | .xor => 0x04
  | .and => 0x0C
  | .or => 0x08
  | .min => 0x10
  | .max => 0x14
  | .minu => 0x18
  | .maxu => 0x1C

def funct5 (insn : U32) : BitVec 5 := (funct7 insn).extractLsb' 2 5

section Width

variable {w : Nat}

/-- The specified result, in the width of the operation. -/
def AmoOp.spec (old v : BitVec w) : AmoOp → BitVec w
  | .swap => v
  | .add => old + v
  | .xor => old ^^^ v
  | .and => old &&& v
  | .or => old ||| v
  | .min => if old.slt v then old else v
  | .max => if v.slt old then old else v
  | .minu => if old < v then old else v
  | .maxu => if v < old then old else v

/-- Whether the result of a comparison is the old value; `none` is an operation that does not compare. -/
def AmoOp.keepsOld (old v : BitVec w) : AmoOp → Option Bool
  | .min => some (old.slt v)
  | .max => some (v.slt old)
  | .minu => some (decide (old < v))
  | .maxu => some (decide (v < old))
  | _ => none

end Width

theorem amoResult_eq (op : AmoOp) (loaded v : U64) : amoResult op.funct5 loaded v = some (op.spec loaded v) := by
  cases op <;> rfl

/-! ## The width of an operation -/

/-- `insn` is an AMO of 64 bits, or of 32. -/
structure AmoOp.Encodes (op : AmoOp) (wide : Bool) (insn : U32) : Prop where
  opcode : PgLinux.opcode insn = 0x2F
  funct3 : PgLinux.funct3 insn = if wide then 3 else 2
  funct5 : PgLinux.funct5 insn = op.funct5

/-- The old value of memory, sign-extended from the width. -/
def amoOld (wide : Bool) (val : U64) : U64 := if wide then val else (val.setWidth 32).signExtend 64

def amoSize (wide : Bool) : Nat := if wide then 8 else 4

/-- What is stored is the result, in the width, of the operation on the old value and rs2 in that width. -/
def AmoRight (op : AmoOp) (wide : Bool) (old v stored : U64) : Prop :=
  if wide then stored = op.spec old v else stored.setWidth 32 = op.spec (old.setWidth 32) (v.setWidth 32 : U32)

/-- A comparison of the registers comes out as that of the words, or the words are equal. -/
def ComparesAlike (op : AmoOp) (wide : Bool) (old v : U64) : Prop :=
  wide = true ∨ op.keepsOld (amoOld false old) v = op.keepsOld (old.setWidth 32) (v.setWidth 32 : U32) ∨
    (old.setWidth 32 : U32) = v.setWidth 32

theorem setWidth_ite {a b : U64} {old v : U32} {p q : Prop} [Decidable p] [Decidable q] (ha : a.setWidth 32 = old)
    (hb : b.setWidth 32 = v) :
    (if p then a else b).setWidth 32 = (if q then old else v) ↔ some (decide p) = some (decide q) ∨ old = v := by
  by_cases hp : p <;> by_cases hq : q <;> simp [hp, hq, ha, hb, eq_comm]

theorem amoOld_setWidth (old : U64) : (amoOld false old).setWidth 32 = (old.setWidth 32 : U32) := by
  refine BitVec.eq_of_getLsbD_eq fun i hi => ?_
  have h64 : i < 64 := by omega
  show (((old.setWidth 32 : U32).signExtend 64).setWidth 32).getLsbD i = _
  rw [BitVec.getLsbD_setWidth, BitVec.getLsbD_signExtend]
  simp [hi, h64]

/-- **An AMO stores the specified value exactly when its comparison is that of the width.** -/
theorem amoRight_iff (op : AmoOp) (wide : Bool) (old v : U64) :
    AmoRight op wide old v (op.spec (amoOld wide old) v) ↔ ComparesAlike op wide old v := by
  cases wide with
  | true => exact iff_of_true rfl (.inl rfl)
  | false =>
    have hold := amoOld_setWidth old
    unfold AmoRight ComparesAlike
    rw [if_neg Bool.false_ne_true, or_iff_right Bool.false_ne_true]
    generalize amoOld false old = loaded at hold ⊢
    generalize (old.setWidth 32 : U32) = o at hold ⊢
    cases op with
    | swap => exact iff_of_true rfl (.inl rfl)
    | add => exact iff_of_true (by rw [AmoOp.spec, BitVec.setWidth_add _ _ (by decide), hold]; rfl) (.inl rfl)
    | xor => exact iff_of_true (by rw [AmoOp.spec, BitVec.setWidth_xor, hold]; rfl) (.inl rfl)
    | and => exact iff_of_true (by rw [AmoOp.spec, BitVec.setWidth_and, hold]; rfl) (.inl rfl)
    | or => exact iff_of_true (by rw [AmoOp.spec, BitVec.setWidth_or, hold]; rfl) (.inl rfl)
    | min =>
      have h := setWidth_ite (b := v) (p := loaded.slt v = true) (q := o.slt (v.setWidth 32) = true) hold rfl
      rwa [Bool.decide_eq_true, Bool.decide_eq_true] at h
    | max =>
      have h := setWidth_ite (b := v) (p := v.slt loaded = true) (q := (v.setWidth 32).slt o = true) hold rfl
      rwa [Bool.decide_eq_true, Bool.decide_eq_true] at h
    | minu => exact setWidth_ite hold rfl
    | maxu => exact setWidth_ite hold rfl

/-! ## The store half -/

/-- The bytes of an atomic access. -/
def amoBytes (insn : U32) : Nat := if funct3 insn = 3 then 8 else 4

/-- The loaded value, sign-extended. -/
def amoLoaded (insn : U32) (val : U64) : U64 := if funct3 insn = 3 then val else (val.setWidth 32).signExtend 64

/-- What an atomic instruction stores, once `val` was loaded; LR and an SC that fails store nothing. -/
def amoStored (insn : U32) (c : Cpu) (val : U64) : Option U64 :=
  if funct5 insn = 0x02 then none
  else if funct5 insn = 0x03 then
    if c.reservation.valid && c.reservation.addr == c.x (rs1 insn) then some (c.x (rs2 insn)) else none
  else amoResult (funct5 insn) (amoLoaded insn val) (c.x (rs2 insn))

theorem amoStored_sc {insn : U32} {c : Cpu} {val : U64} (hsc : funct5 insn = 0x03)
    (hres : (c.reservation.valid && c.reservation.addr == c.x (rs1 insn)) = true) :
    amoStored insn c val = some (c.x (rs2 insn)) := by
  unfold amoStored
  rw [if_neg (by rw [hsc]; decide), if_pos hsc, if_pos hres]

theorem amoStored_amo {insn : U32} {c : Cpu} {val result : U64} (hlr : funct5 insn ≠ 0x02) (hsc : funct5 insn ≠ 0x03)
    (h : amoResult (funct5 insn) (amoLoaded insn val) (c.x (rs2 insn)) = some result) :
    amoStored insn c val = some result := by
  unfold amoStored
  rw [if_neg hlr, if_neg hsc, h]

/-! ## A run -/

theorem amoSize_eq {wide : Bool} {f3 : BitVec 3} (h : f3 = if wide then 3 else 2) :
    (if f3 = 3 then 8 else 4) = amoSize wide ∧
      ∀ val : U64, (if f3 = 3 then val else (val.setWidth 32).signExtend 64) = amoOld wide val := by
  rw [h]
  cases wide
  · exact ⟨rfl, fun _ => rfl⟩
  · exact ⟨rfl, fun _ => rfl⟩

section Run

variable [NetDevice]

/-- An AMO that ends in `c'`: it loaded `old`, stored `stored` at the same address, and wrote the old value to rd. -/
structure AmoRun (op : AmoOp) (wide : Bool) (insn : U32) (c : Cpu) (old stored : U64) (c' : Cpu) : Prop where
  run : ∃ m m', rv64CpuLoad (c.x (rs1 insn)) (amoSize wide) .read c = .ok old m ∧
    cpuStore (c.x (rs1 insn)) (amoSize wide) stored m = .ok () m' ∧ c' = m'.wr (rd insn) (amoOld wide old)
  computed : amoResult op.funct5 (amoOld wide old) (c.x (rs2 insn)) = some stored

variable {op : AmoOp} {wide : Bool} {insn : U32} {c c' : Cpu}

omit [NetDevice] in
theorem AmoOp.funct5_ne (op : AmoOp) : op.funct5 ≠ 0x02 ∧ op.funct5 ≠ 0x03 := by cases op <;> decide

/-- The case 0x2F on an AMO. -/
theorem AmoOp.Encodes.execAmo (h : op.Encodes wide insn) (nextPc : U64) (c : Cpu) :
    PgLinux.execAmo insn nextPc c = (do
      let val ← orTrap (rv64CpuLoad (c.x (rs1 insn)) (amoSize wide) .read) (c.x (rs1 insn))
      let v := (← get).x (rs2 insn)
      orTrap (cpuStore (c.x (rs1 insn)) (amoSize wide) (op.spec (amoOld wide val) v)) (c.x (rs1 insn))
      wrM (rd insn) (amoOld wide val)
      return nextPc : Exec U64) c := by
  obtain ⟨hsize, hold⟩ := amoSize_eq h.funct3
  obtain ⟨hlr, hsc⟩ := op.funct5_ne
  have hf5 : (funct7 insn).extractLsb' 2 5 = op.funct5 := h.funct5
  unfold PgLinux.execAmo
  rw [get_bind_apply]
  simp only [hsize, hold, hf5, if_neg hlr, if_neg hsc, amoResult_eq]

variable [HostFp]

theorem execInsn_atomic (h : opcode insn = 0x2F) (pc nextPc : U64) (c : Cpu) :
    execInsn insn pc nextPc c = PgLinux.execAmo insn nextPc c := by
  unfold execInsn
  rw [get_bind_apply, h]
  rfl

/-- **An AMO that does not trap** stores the specified value exactly when its comparison is that of the width, and
returns the old value. -/
theorem amo_stores {pc nextPc n : U64} (h : op.Encodes wide insn) (hok : execInsn insn pc nextPc c = .ok n c') :
    ∃ old stored, AmoRun op wide insn c old stored c' ∧
      (AmoRight op wide old (c.x (rs2 insn)) stored ↔ ComparesAlike op wide old (c.x (rs2 insn))) := by
  rw [execInsn_atomic h.opcode, h.execAmo] at hok
  obtain ⟨old, m, hload, hok⟩ := bind_eq_ok.1 hok
  rw [orTrap_eq_ok] at hload
  rw [get_bind_apply] at hok
  obtain ⟨_, m', hstore, hok⟩ := bind_eq_ok.1 hok
  rw [orTrap_eq_ok] at hstore
  have hx : m.x = c.x := by
    have hframe := rv64CpuLoad_frame (c.x (rs1 insn)) (amoSize wide) .read c
    rw [hload] at hframe
    obtain ⟨t, b, d, rfl⟩ := hframe
    rfl
  rw [hx] at hstore
  cases hok
  exact ⟨old, _, ⟨⟨m, m', hload, hstore, rfl⟩, amoResult_eq op _ _⟩, amoRight_iff op wide old _⟩

end Run

section Words

local instance amoNet : NetDevice := NetDevice.silent
local instance amoFp : HostFp := HostFp.zero

/-- Machine mode: x1 points to a word 5, x2 holds `v`. -/
def amoCpu (v : U64) : Cpu :=
  { rv64Init (Mem.write (fun _ => 0) 8 8 5) 0x1000 with x := setAt (setAt (fun _ => 0) 1 (ramBase + 8)) 2 v }

theorem amoCpu_load (v : U64) : rv64CpuLoad (ramBase + 8) 4 .read (amoCpu v) = .ok 5 (amoCpu v) :=
  (rv64CpuLoad_machine rfl rfl (by decide) (show inRam 0x1000 (ramBase + 8) = true by decide)).trans
    (congrArg (EStateM.Result.ok · (amoCpu v))
      (show (Mem.write (fun _ => 0) 8 8 5).read (ramBase + 8 - ramBase) 4 = 5 by decide))

/-- AMOMIN.W x3, x2, (x1). -/
theorem amoMin_encodes : AmoOp.min.Encodes false 0x8020A1AF := ⟨rfl, rfl, rfl⟩

/-- The minimum of 5 and 3 is 5, where the upper half of rs2 is not zero. -/
theorem not_amoRight_min : ∃ op wide insn c n c', op.Encodes wide insn ∧ execInsn insn 0 4 c = .ok n c' ∧
    ∀ old stored, AmoRun op wide insn c old stored c' → ¬ AmoRight op wide old (c.x (rs2 insn)) stored := by
  refine ⟨.min, false, 0x8020A1AF, amoCpu 0x100000003, 4,
    final (execInsn 0x8020A1AF 0 4 (amoCpu 0x100000003)), amoMin_encodes, rfl, ?_⟩
  rintro old stored ⟨⟨m, m', hload, -, -⟩, hcomputed⟩
  have hload5 := (amoCpu_load 0x100000003).symm.trans hload
  cases hload5
  cases hcomputed
  unfold AmoRight
  decide

/-- The minimum of 5 and 3. -/
theorem amo_stores_min : ∃ old stored, AmoRun .min false 0x8020A1AF (amoCpu 3) old stored
      (final (execInsn 0x8020A1AF 0 4 (amoCpu 3))) ∧
    (AmoRight .min false old 3 stored ↔ ComparesAlike .min false old 3) :=
  amo_stores amoMin_encodes (show execInsn 0x8020A1AF 0 4 (amoCpu 3) = .ok 4 _ from rfl)

end Words

end PgLinux
