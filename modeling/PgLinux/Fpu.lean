import PgLinux.Mmu
/-!
# Fpu — the F and D extensions (`rv64_fpu.c`)

The host's floating-point operations are a parameter: the C operators on `float` and `double` and the casts between
them, as functions of bit patterns.  What the source does on bits itself (NaN boxing, sign injection, moves) is exact.
-/
namespace PgLinux

/-- The C operators on one floating type, on its bit patterns. -/
structure FpOps (w : Nat) where
  add : BitVec w → BitVec w → BitVec w
  sub : BitVec w → BitVec w → BitVec w
  mul : BitVec w → BitVec w → BitVec w
  div : BitVec w → BitVec w → BitVec w
  sqrt : BitVec w → BitVec w
  lt : BitVec w → BitVec w → Bool
  le : BitVec w → BitVec w → Bool
  eq : BitVec w → BitVec w → Bool
  isNan : BitVec w → Bool
  isInf : BitVec w → Bool
  toInt32 : BitVec w → U32
  toUInt32 : BitVec w → U32
  toInt64 : BitVec w → U64
  toUInt64 : BitVec w → U64
  ofInt32 : U32 → BitVec w
  ofUInt32 : U32 → BitVec w
  ofInt64 : U64 → BitVec w
  ofUInt64 : U64 → BitVec w

class HostFp where
  s : FpOps 32
  d : FpOps 64
  toSingle : U64 → U32
  toDouble : U32 → U64

/-- Operations for a machine that runs no floating-point code. -/
def FpOps.zero (w : Nat) : FpOps w :=
  ⟨fun _ _ => 0, fun _ _ => 0, fun _ _ => 0, fun _ _ => 0, fun _ => 0, fun _ _ => false, fun _ _ => false,
    fun _ _ => false, fun _ => false, fun _ => false, fun _ => 0, fun _ => 0, fun _ => 0, fun _ => 0, fun _ => 0,
    fun _ => 0, fun _ => 0, fun _ => 0⟩

abbrev HostFp.zero : HostFp := ⟨.zero 32, .zero 64, fun _ => 0, fun _ => 0⟩

/-! ## Registers -/

def nanBox (v : U32) : U64 := 0xFFFFFFFF00000000 ||| v.setWidth 64

/-- `rd_f`: the canonical NaN when the register is not NaN-boxed. -/
def rdF (c : Cpu) (r : BitVec 5) : U32 := if c.f r >>> 32 = 0xFFFFFFFF then (c.f r).setWidth 32 else 0x7FC00000

def wrD (rd : BitVec 5) (v : U64) (c : Cpu) : Cpu := { c with f := setAt c.f rd v }
def wrF (rd : BitVec 5) (v : U32) : Cpu → Cpu := wrD rd (nanBox v)

/-- `cpu->x[rd] = v`, which `rv64_fp_exec` does without `WR`. -/
def setX (rd : BitVec 5) (v : U64) (c : Cpu) : Cpu := { c with x := setAt c.x rd v }

def markFsDirty (c : Cpu) : Cpu := { c with csr := { c.csr with mstatus := c.csr.mstatus ||| mstatusFs } }

@[simp] theorem markFsDirty_idem (c : Cpu) : markFsDirty (markFsDirty c) = markFsDirty c := by
  simp [markFsDirty, BitVec.or_assoc]

/-! ## Operations of either width -/

section Ops

variable {w : Nat} (o : FpOps w)

def FpOps.neg (v : BitVec w) : BitVec w := v ^^^ BitVec.twoPow w (w - 1)

/-- FMADD, FMSUB, FNMSUB and FNMADD, by opcode. -/
def fpFma (op : BitVec 7) (a b c : BitVec w) : BitVec w :=
  match op.toNat with
  | 0x43 => o.add (o.mul a b) c
  | 0x47 => o.sub (o.mul a b) c
  | 0x4B => o.add (o.mul (FpOps.neg a) b) c
  | _ => o.sub (o.mul (FpOps.neg a) b) c

def signMask : BitVec w := BitVec.twoPow w (w - 1)

/-- FSGNJ, FSGNJN and FSGNJX. -/
def fpSgnj (f3 : BitVec 3) (a b : BitVec w) : Option (BitVec w) :=
  match f3.toNat with
  | 0 => some ((a &&& ~~~signMask) ||| (b &&& signMask))
  | 1 => some ((a &&& ~~~signMask) ||| (~~~b &&& signMask))
  | 2 => some ((a &&& ~~~signMask) ||| ((a ^^^ b) &&& signMask))
  | _ => none

def fpMinMax (f3 : BitVec 3) (a b : BitVec w) : BitVec w :=
  if f3 = 0 then if o.lt a b || o.isNan b then a else b
  else if o.lt b a || o.isNan b then a else b

/-- FEQ, FLT and FLE. -/
def fpCmp (f3 : BitVec 3) (a b : BitVec w) : Option U64 :=
  match f3.toNat with
  | 2 => some (if o.eq a b then 1 else 0)
  | 1 => some (if o.lt a b then 1 else 0)
  | 0 => some (if o.le a b then 1 else 0)
  | _ => none

/-- FCVT to W, WU, L and LU, by the rs2 field. -/
def fpToInt (sel : BitVec 5) (v : BitVec w) : U64 :=
  if sel = 0 then (o.toInt32 v).signExtend 64
  else if sel = 1 then (o.toUInt32 v).setWidth 64
  else if sel = 2 then o.toInt64 v
  else o.toUInt64 v

def fpOfInt (sel : BitVec 5) (v : U64) : BitVec w :=
  if sel = 0 then o.ofInt32 (v.setWidth 32)
  else if sel = 1 then o.ofUInt32 (v.setWidth 32)
  else if sel = 2 then o.ofInt64 v
  else o.ofUInt64 v

def fpClass (v : BitVec w) : U64 :=
  if o.isInf v && v.msb then 1 <<< 0
  else if o.lt v 0 && !o.isInf v && !o.isNan v then 1 <<< 1
  else if o.eq v 0 && v.msb then 1 <<< 3
  else if o.eq v 0 && !v.msb then 1 <<< 4
  else if o.lt 0 v && !o.isInf v && !o.isNan v then 1 <<< 6
  else if o.isInf v && !v.msb then 1 <<< 7
  else 1 <<< 9

end Ops

/-! ## Execution -/

variable [NetDevice] [HostFp]

/-- Opcode 0x53 in single precision, by funct7; `none` is the return value -1. -/
def fpArithS (c : Cpu) (insn : U32) : Option Cpu :=
  let a := rdF c (rs1 insn)
  let b := rdF c (rs2 insn)
  match (funct7 insn).toNat with
  | 0x00 => some (wrF (rd insn) (HostFp.s.add a b) c)
  | 0x04 => some (wrF (rd insn) (HostFp.s.sub a b) c)
  | 0x08 => some (wrF (rd insn) (HostFp.s.mul a b) c)
  | 0x0C => some (wrF (rd insn) (HostFp.s.div a b) c)
  | 0x2C => some (wrF (rd insn) (HostFp.s.sqrt a) c)
  | 0x10 => (fpSgnj (funct3 insn) a b).map fun r => wrF (rd insn) r c
  | 0x14 => some (wrF (rd insn) (fpMinMax HostFp.s (funct3 insn) a b) c)
  | 0x60 => some (setX (rd insn) (fpToInt HostFp.s (rs2 insn) a) c)
  | 0x70 => some (setX (rd insn)
      (if funct3 insn = 0 then ((c.f (rs1 insn)).setWidth 32).signExtend 64 else fpClass HostFp.s a) c)
  | 0x50 => (fpCmp HostFp.s (funct3 insn) a b).map fun r => setX (rd insn) r c
  | 0x68 => some (wrF (rd insn) (fpOfInt HostFp.s (rs2 insn) (c.x (rs1 insn))) c)
  | 0x78 => some (wrF (rd insn) ((c.x (rs1 insn)).setWidth 32) c)
  | 0x20 => some (wrF (rd insn) (HostFp.toSingle (c.f (rs1 insn))) c)
  | _ => none

/-- Opcode 0x53 in double precision. -/
def fpArithD (c : Cpu) (insn : U32) : Option Cpu :=
  let a := c.f (rs1 insn)
  let b := c.f (rs2 insn)
  match (funct7 insn).toNat with
  | 0x01 => some (wrD (rd insn) (HostFp.d.add a b) c)
  | 0x05 => some (wrD (rd insn) (HostFp.d.sub a b) c)
  | 0x09 => some (wrD (rd insn) (HostFp.d.mul a b) c)
  | 0x0D => some (wrD (rd insn) (HostFp.d.div a b) c)
  | 0x2D => some (wrD (rd insn) (HostFp.d.sqrt a) c)
  | 0x11 => (fpSgnj (funct3 insn) a b).map fun r => wrD (rd insn) r c
  | 0x15 => some (wrD (rd insn) (fpMinMax HostFp.d (funct3 insn) a b) c)
  | 0x21 => some (wrD (rd insn) (HostFp.toDouble (rdF c (rs1 insn))) c)
  | 0x51 => (fpCmp HostFp.d (funct3 insn) a b).map fun r => setX (rd insn) r c
  | 0x61 => some (setX (rd insn) (fpToInt HostFp.d (rs2 insn) a) c)
  | 0x69 => some (wrD (rd insn) (fpOfInt HostFp.d (rs2 insn) (c.x (rs1 insn))) c)
  | 0x71 => some (setX (rd insn) (if funct3 insn = 0 then a else fpClass HostFp.d a) c)
  | 0x79 => some (wrD (rd insn) (c.x (rs1 insn)) c)
  | _ => none

/-- The fused multiply-adds. -/
def fpFmaExec (c : Cpu) (insn : U32) : Option Cpu :=
  let fmt := insn.extractLsb' 25 2
  if fmt = 0 then
    some (wrF (rd insn) (fpFma HostFp.s (opcode insn) (rdF c (rs1 insn)) (rdF c (rs2 insn)) (rdF c (rs3 insn))) c)
  else if fmt = 1 then
    some (wrD (rd insn) (fpFma HostFp.d (opcode insn) (c.f (rs1 insn)) (c.f (rs2 insn)) (c.f (rs3 insn))) c)
  else none

/-- FP instructions that touch no memory. -/
def fpCompute (c : Cpu) (insn : U32) : Option Cpu :=
  if opcode insn = 0x53 then (fpArithS c insn).or (fpArithD c insn) else fpFmaExec c insn

/-- The result of `rv64_fp_exec`: 0, -1, or 1 when a fault was already delivered. -/
inductive FpResult where
  | ok | illegal | faulted
deriving DecidableEq

/-- A memory access of an FP instruction, with its fault delivered. -/
def fpAccess {α : Type} (m : Access α) (addr : U64) (k : α → Cpu → Cpu) (c : Cpu) : FpResult × Cpu :=
  match m c with
  | .ok v c => (.ok, k v c)
  | .error exc c => (.faulted, trap c exc addr)

def rv64FpExec (insn : U32) (c : Cpu) : FpResult × Cpu :=
  let c := markFsDirty c
  let addrL := c.x (rs1 insn) + (insn.sshiftRight 20).signExtend 64
  let addrS := c.x (rs1 insn) + immS insn
  match (opcode insn).toNat with
  | 0x07 =>
    if funct3 insn = 2 then fpAccess (rv64CpuLoad addrL 4 .read) addrL (fun v => wrF (rd insn) (v.setWidth 32)) c
    else if funct3 insn = 3 then fpAccess (rv64CpuLoad addrL 8 .read) addrL (fun v => wrD (rd insn) v) c
    else (.illegal, c)
  | 0x27 =>
    if funct3 insn = 2 then fpAccess (cpuStore addrS 4 (c.f (rs2 insn) &&& 0xFFFFFFFF)) addrS (fun _ c => c) c
    else if funct3 insn = 3 then fpAccess (cpuStore addrS 8 (c.f (rs2 insn))) addrS (fun _ c => c) c
    else (.illegal, c)
  | _ =>
    match fpCompute c insn with
    | some c' => (.ok, c')
    | none => (.illegal, c)

end PgLinux
