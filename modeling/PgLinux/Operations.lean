import PgLinux.Atomics
/-!
# Operations — what an instruction word has the interpreter do

An `Operation` is an instruction by name, with its registers and its immediate.  `performed` reads the word as the `switch`
of `rv64_step` does, and `performed_run` is that the interpreter performs what it reads.
-/
namespace PgLinux

/-! ## Names -/

inductive BranchOp where
  | beq | bne | blt | bge | bltu | bgeu
deriving DecidableEq

def BranchOp.taken : BranchOp → U64 → U64 → Bool
  | .beq, a, b => a == b
  | .bne, a, b => a != b
  | .blt, a, b => a.slt b
  | .bge, a, b => !a.slt b
  | .bltu, a, b => decide (a < b)
  | .bgeu, a, b => decide (b ≤ a)

def BranchOp.ofFunct3 (f3 : BitVec 3) : Option BranchOp :=
  match f3.toNat with
  | 0 => some .beq
  | 1 => some .bne
  | 4 => some .blt
  | 5 => some .bge
  | 6 => some .bltu
  | 7 => some .bgeu
  | _ => none

inductive LoadOp where
  | lb | lh | lw | ld | lbu | lhu | lwu
deriving DecidableEq

/-- The size of a load and the extension of its value. -/
def LoadOp.kind : LoadOp → Nat × (U64 → U64)
  | .lb => (1, fun v => (v.setWidth 8).signExtend 64)
  | .lh => (2, fun v => (v.setWidth 16).signExtend 64)
  | .lw => (4, fun v => (v.setWidth 32).signExtend 64)
  | .ld => (8, id)
  | .lbu => (1, id)
  | .lhu => (2, id)
  | .lwu => (4, id)

def LoadOp.ofFunct3 (f3 : BitVec 3) : Option LoadOp :=
  match f3.toNat with
  | 0 => some .lb
  | 1 => some .lh
  | 2 => some .lw
  | 3 => some .ld
  | 4 => some .lbu
  | 5 => some .lhu
  | 6 => some .lwu
  | _ => none

inductive StoreOp where
  | sb | sh | sw | sd
deriving DecidableEq

def StoreOp.size : StoreOp → Nat
  | .sb => 1
  | .sh => 2
  | .sw => 4
  | .sd => 8

def StoreOp.ofFunct3 (f3 : BitVec 3) : Option StoreOp :=
  match f3.toNat with
  | 0 => some .sb
  | 1 => some .sh
  | 2 => some .sw
  | 3 => some .sd
  | _ => none

inductive ImmOp where
  | addi | slti | sltiu | xori | ori | andi
deriving DecidableEq

def ImmOp.eval : ImmOp → U64 → U64 → U64
  | .addi, a, imm => a + imm
  | .slti, a, imm => boolWord (a.slt imm)
  | .sltiu, a, imm => boolWord (decide (a < imm))
  | .xori, a, imm => a ^^^ imm
  | .ori, a, imm => a ||| imm
  | .andi, a, imm => a &&& imm

inductive ShiftOp where
  | sll | srl | sra
deriving DecidableEq

/-- A shift of any width. -/
def ShiftOp.eval {w : Nat} : ShiftOp → BitVec w → Nat → BitVec w
  | .sll, a, n => a <<< n
  | .srl, a, n => a >>> n
  | .sra, a, n => a.sshiftRight n

inductive AluOp where
  | add | sub | shift (op : ShiftOp) | slt | sltu | xor | or | and
  | mul | mulh | mulhsu | mulhu | div | divu | rem | remu
deriving DecidableEq

def AluOp.eval : AluOp → U64 → U64 → U64
  | .add, a, b => a + b
  | .sub, a, b => a - b
  | .shift op, a, b => op.eval a (b &&& 0x3F).toNat
  | .slt, a, b => boolWord (a.slt b)
  | .sltu, a, b => boolWord (decide (a < b))
  | .xor, a, b => a ^^^ b
  | .or, a, b => a ||| b
  | .and, a, b => a &&& b
  | .mul, a, b => a * b
  | .mulh, a, b => ((a.signExtend 128 * b.signExtend 128) >>> 64).setWidth 64
  | .mulhsu, a, b => ((a.signExtend 128 * b.setWidth 128) >>> 64).setWidth 64
  | .mulhu, a, b => ((a.setWidth 128 * b.setWidth 128) >>> 64).setWidth 64
  | .div, a, b => if b ≠ 0 then sdiv64 a b else ~~~0
  | .divu, a, b => if b ≠ 0 then a / b else ~~~0
  | .rem, a, b => if b ≠ 0 then srem64 a b else a
  | .remu, a, b => if b ≠ 0 then a % b else a

def AluOp.ofFunct (f7 : BitVec 7) (f3 : BitVec 3) : AluOp :=
  if f7 = 0x01 then
    match f3.toNat with
    | 0 => .mul
    | 1 => .mulh
    | 2 => .mulhsu
    | 3 => .mulhu
    | 4 => .div
    | 5 => .divu
    | 6 => .rem
    | _ => .remu
  else
    match f3.toNat with
    | 0 => if f7 = 0x20 then .sub else .add
    | 1 => .shift .sll
    | 2 => .slt
    | 3 => .sltu
    | 4 => .xor
    | 5 => .shift (if f7 = 0x20 then .sra else .srl)
    | 6 => .or
    | _ => .and

/-- The operations on 32 bits. -/
inductive WordOp where
  | addw | subw | shift (op : ShiftOp) | mulw | divw | divuw | remw | remuw
deriving DecidableEq

def WordOp.eval : WordOp → U32 → U32 → U32
  | .addw, a, b => a + b
  | .subw, a, b => a - b
  | .shift op, a, b => op.eval a (b &&& 0x1F).toNat
  | .mulw, a, b => a * b
  | .divw, a, b => if b ≠ 0 then a.sdiv b else ~~~0
  | .divuw, a, b => if b ≠ 0 then a / b else ~~~0
  | .remw, a, b => if b ≠ 0 then a.srem b else a
  | .remuw, a, b => if b ≠ 0 then a % b else a

def WordOp.ofFunct (f7 : BitVec 7) (f3 : BitVec 3) : Option WordOp :=
  if f7 = 0x01 then
    match f3.toNat with
    | 0 => some .mulw
    | 4 => some .divw
    | 5 => some .divuw
    | 6 => some .remw
    | 7 => some .remuw
    | _ => none
  else
    match f3.toNat with
    | 0 => some (if f7 = 0x20 then .subw else .addw)
    | 1 => some (.shift .sll)
    | 5 => some (.shift (if f7 = 0x20 then .sra else .srl))
    | _ => none

def AmoOp.ofFunct5 (f5 : BitVec 5) : Option AmoOp :=
  match f5.toNat with
  | 0x01 => some .swap
  | 0x00 => some .add
  | 0x04 => some .xor
  | 0x0C => some .and
  | 0x08 => some .or
  | 0x10 => some .min
  | 0x14 => some .max
  | 0x18 => some .minu
  | 0x1C => some .maxu
  | _ => none

/-! ## Operations -/

inductive Operation where
  | lui (rd : BitVec 5) (imm : BitVec 20)
  | auipc (rd : BitVec 5) (imm : BitVec 20)
  | jal (rd : BitVec 5) (off : BitVec 21)
  | jalr (rd rs1 : BitVec 5) (imm : BitVec 12)
  | branch (op : BranchOp) (rs1 rs2 : BitVec 5) (off : BitVec 13)
  | load (op : LoadOp) (rd rs1 : BitVec 5) (imm : BitVec 12)
  | store (op : StoreOp) (rs1 rs2 : BitVec 5) (imm : BitVec 12)
  | aluImm (op : ImmOp) (rd rs1 : BitVec 5) (imm : BitVec 12)
  | shift (op : ShiftOp) (rd rs1 : BitVec 5) (shamt : BitVec 6)
  | alu (op : AluOp) (rd rs1 rs2 : BitVec 5)
  | addiw (rd rs1 : BitVec 5) (imm : BitVec 12)
  | shiftw (op : ShiftOp) (rd rs1 : BitVec 5) (shamt : BitVec 5)
  | aluw (op : WordOp) (rd rs1 rs2 : BitVec 5)
  | lr (double : Bool) (rd rs1 : BitVec 5)
  | sc (double : Bool) (rd rs1 rs2 : BitVec 5)
  | amo (op : AmoOp) (double : Bool) (rd rs1 rs2 : BitVec 5)
  | fence
  | fenceI
deriving DecidableEq

section Run

variable [NetDevice]

/-- A load of 4 or 8 bytes for an atomic operation. -/
def loadAtomic (double : Bool) (addr : U64) : Exec U64 := do
  let val ← orTrap (rv64CpuLoad addr (if double then 8 else 4) .read) addr
  return if double then val else (val.setWidth 32).signExtend 64

def storeAtomic (double : Bool) (addr val : U64) : Exec Unit := orTrap (cpuStore addr (if double then 8 else 4) val) addr

def scAtomic (double : Bool) (rd rs2 : BitVec 5) (addr : U64) : Exec Unit := do
  let c ← get
  if c.reservation.valid && c.reservation.addr == addr then
    storeAtomic double addr (c.x rs2)
    wrM rd 0
  else
    wrM rd 1
  modify fun c => { c with reservation := { c.reservation with valid := false } }

/-- What an operation does: the next pc.  An SC reads its word too, reserved or not. -/
def Operation.run (op : Operation) (pc nextPc : U64) : Exec U64 := do
  let c ← get
  match op with
  | .lui rd imm =>
    wrM rd ((imm ++ 0#12 : U32).signExtend 64)
    return nextPc
  | .auipc rd imm =>
    wrM rd (pc + (imm ++ 0#12 : U32).signExtend 64)
    return nextPc
  | .jal rd off =>
    wrM rd nextPc
    return pc + off.signExtend 64
  | .jalr rd rs1 imm =>
    wrM rd nextPc
    return (c.x rs1 + imm.signExtend 64) &&& ~~~1
  | .branch op rs1 rs2 off => return if op.taken (c.x rs1) (c.x rs2) then pc + off.signExtend 64 else nextPc
  | .load op rd rs1 imm =>
    let addr := c.x rs1 + imm.signExtend 64
    let val ← orTrap (rv64CpuLoad addr op.kind.1 .read) addr
    wrM rd (op.kind.2 val)
    return nextPc
  | .store op rs1 rs2 imm =>
    let addr := c.x rs1 + imm.signExtend 64
    orTrap (cpuStore addr op.size (c.x rs2)) addr
    return nextPc
  | .aluImm op rd rs1 imm =>
    wrM rd (op.eval (c.x rs1) (imm.signExtend 64))
    return nextPc
  | .shift op rd rs1 shamt =>
    wrM rd (op.eval (c.x rs1) shamt.toNat)
    return nextPc
  | .alu op rd rs1 rs2 =>
    wrM rd (op.eval (c.x rs1) (c.x rs2))
    return nextPc
  | .addiw rd rs1 imm =>
    wrM rd (((c.x rs1).setWidth 32 + (imm.signExtend 32)).signExtend 64)
    return nextPc
  | .shiftw op rd rs1 shamt =>
    wrM rd ((op.eval ((c.x rs1).setWidth 32 : U32) shamt.toNat).signExtend 64)
    return nextPc
  | .aluw op rd rs1 rs2 =>
    wrM rd ((op.eval ((c.x rs1).setWidth 32) ((c.x rs2).setWidth 32)).signExtend 64)
    return nextPc
  | .lr double rd rs1 =>
    let loaded ← loadAtomic double (c.x rs1)
    modify fun d => { d with reservation := ⟨true, c.x rs1⟩ }
    wrM rd loaded
    return nextPc
  | .sc double rd rs1 rs2 =>
    let _ ← loadAtomic double (c.x rs1)
    scAtomic double rd rs2 (c.x rs1)
    return nextPc
  | .amo op double rd rs1 rs2 =>
    let loaded ← loadAtomic double (c.x rs1)
    storeAtomic double (c.x rs1) (op.spec loaded ((← get).x rs2))
    wrM rd loaded
    return nextPc
  | .fence => return nextPc
  | .fenceI =>
    modify jitFlush
    return nextPc

end Run

/-! ## Words -/

def integerOpcodes : List Nat := [0x37, 0x17, 0x6F, 0x67, 0x63, 0x03, 0x23, 0x13, 0x33, 0x1B, 0x3B, 0x2F, 0x0F]

def performedAmo (insn : U32) : Option Operation :=
  let double := decide (funct3 insn = 3)
  if funct5 insn = 0x02 then some (.lr double (rd insn) (rs1 insn))
  else if funct5 insn = 0x03 then some (.sc double (rd insn) (rs1 insn) (rs2 insn))
  else (AmoOp.ofFunct5 (funct5 insn)).map fun op => .amo op double (rd insn) (rs1 insn) (rs2 insn)

/-- The operation that the `switch` of `rv64_step` performs for a word; `none` is an illegal instruction or another opcode. -/
def performed (insn : U32) : Option Operation :=
  match (opcode insn).toNat with
  | 0x37 => some (.lui (rd insn) (insn.extractLsb' 12 20))
  | 0x17 => some (.auipc (rd insn) (insn.extractLsb' 12 20))
  | 0x6F => some (.jal (rd insn) (insn.extractLsb' 31 1 ++ insn.extractLsb' 12 8 ++ insn.extractLsb' 20 1 ++
      insn.extractLsb' 21 10 ++ 0#1))
  | 0x67 => some (.jalr (rd insn) (rs1 insn) (insn.extractLsb' 20 12))
  | 0x63 => (BranchOp.ofFunct3 (funct3 insn)).map fun op => .branch op (rs1 insn) (rs2 insn)
      (insn.extractLsb' 31 1 ++ insn.extractLsb' 7 1 ++ insn.extractLsb' 25 6 ++ insn.extractLsb' 8 4 ++ 0#1)
  | 0x03 => (LoadOp.ofFunct3 (funct3 insn)).map fun op => .load op (rd insn) (rs1 insn) (insn.extractLsb' 20 12)
  | 0x23 => (StoreOp.ofFunct3 (funct3 insn)).map fun op => .store op (rs1 insn) (rs2 insn)
      (insn.extractLsb' 25 7 ++ insn.extractLsb' 7 5)
  | 0x13 =>
    match (funct3 insn).toNat with
    | 0 => some (.aluImm .addi (rd insn) (rs1 insn) (insn.extractLsb' 20 12))
    | 1 => some (.shift .sll (rd insn) (rs1 insn) (insn.extractLsb' 20 6))
    | 2 => some (.aluImm .slti (rd insn) (rs1 insn) (insn.extractLsb' 20 12))
    | 3 => some (.aluImm .sltiu (rd insn) (rs1 insn) (insn.extractLsb' 20 12))
    | 4 => some (.aluImm .xori (rd insn) (rs1 insn) (insn.extractLsb' 20 12))
    | 5 => some (.shift (if funct7 insn >>> 1 ≠ 0 then .sra else .srl) (rd insn) (rs1 insn) (insn.extractLsb' 20 6))
    | 6 => some (.aluImm .ori (rd insn) (rs1 insn) (insn.extractLsb' 20 12))
    | _ => some (.aluImm .andi (rd insn) (rs1 insn) (insn.extractLsb' 20 12))
  | 0x33 => some (.alu (AluOp.ofFunct (funct7 insn) (funct3 insn)) (rd insn) (rs1 insn) (rs2 insn))
  | 0x1B =>
    match (funct3 insn).toNat with
    | 0 => some (.addiw (rd insn) (rs1 insn) (insn.extractLsb' 20 12))
    | 1 => some (.shiftw .sll (rd insn) (rs1 insn) (rs2 insn))
    | 5 => some (.shiftw (if funct7 insn = 0x20 then .sra else .srl) (rd insn) (rs1 insn) (rs2 insn))
    | _ => none
  | 0x3B => (WordOp.ofFunct (funct7 insn) (funct3 insn)).map fun op => .aluw op (rd insn) (rs1 insn) (rs2 insn)
  | 0x2F => performedAmo insn
  | 0x0F => some (if funct3 insn = 1 then .fenceI else .fence)
  | _ => none

/-! ## The switch performs what it reads -/

theorem branchTaken_eq (f3 : BitVec 3) (a b : U64) : branchTaken f3 a b = (BranchOp.ofFunct3 f3).map (·.taken a b) := by
  rcases funct3_cases f3 with rfl | rfl | rfl | rfl | rfl | rfl | rfl | rfl <;> rfl

theorem loadKind_eq (f3 : BitVec 3) : loadKind f3 = (LoadOp.ofFunct3 f3).map LoadOp.kind := by
  rcases funct3_cases f3 with rfl | rfl | rfl | rfl | rfl | rfl | rfl | rfl <;> rfl

theorem storeSize_eq (f3 : BitVec 3) : storeSize f3 = (StoreOp.ofFunct3 f3).map StoreOp.size := by
  rcases funct3_cases f3 with rfl | rfl | rfl | rfl | rfl | rfl | rfl | rfl <;> rfl

theorem amoResult_ofFunct5 (f5 : BitVec 5) (loaded v : U64) :
    amoResult f5 loaded v = (AmoOp.ofFunct5 f5).map (·.spec loaded v) := by
  unfold amoResult AmoOp.ofFunct5
  generalize f5.toNat = n
  split <;> simp_all [AmoOp.spec]

theorem aluOp_eq (f7 : BitVec 7) (f3 : BitVec 3) (a b : U64) : aluOp f7 f3 a b = (AluOp.ofFunct f7 f3).eval a b := by
  unfold aluOp AluOp.ofFunct
  split
  · rcases funct3_cases f3 with rfl | rfl | rfl | rfl | rfl | rfl | rfl | rfl <;> rfl
  · by_cases h20 : f7 = 0x20
    · rcases funct3_cases f3 with rfl | rfl | rfl | rfl | rfl | rfl | rfl | rfl <;> simp only [h20] <;> rfl
    · rcases funct3_cases f3 with rfl | rfl | rfl | rfl | rfl | rfl | rfl | rfl <;> simp only [h20, if_false] <;> rfl

theorem aluOp32_eq (f7 : BitVec 7) (f3 : BitVec 3) (a b : U32) :
    aluOp32 f7 f3 a b = (WordOp.ofFunct f7 f3).map (·.eval a b) := by
  unfold aluOp32 WordOp.ofFunct
  split
  · rcases funct3_cases f3 with rfl | rfl | rfl | rfl | rfl | rfl | rfl | rfl <;> rfl
  · by_cases h20 : f7 = 0x20
    · rcases funct3_cases f3 with rfl | rfl | rfl | rfl | rfl | rfl | rfl | rfl <;> simp only [h20] <;> rfl
    · rcases funct3_cases f3 with rfl | rfl | rfl | rfl | rfl | rfl | rfl | rfl <;> simp only [h20, if_false] <;> rfl

theorem immU_eq (insn : U32) : immU insn = (insn.extractLsb' 12 20 ++ 0#12 : U32).signExtend 64 := by
  have hmask : insn &&& 0xFFFFF000 = (insn.extractLsb' 12 20 ++ 0#12 : U32) := by
    apply BitVec.eq_of_getLsbD_eq
    intro i hi
    have hbit : (0xFFFFF000 : U32).getLsbD i = decide (12 ≤ i) := by
      have hall : ∀ i : Fin 32, (0xFFFFF000 : U32).getLsbD i.val = decide (12 ≤ i.val) := by decide
      exact hall ⟨i, hi⟩
    rw [BitVec.getLsbD_and, hbit, BitVec.getLsbD_append]
    simp only [BitVec.getLsbD_extractLsb', BitVec.getLsbD_zero]
    grind
  rw [immU, hmask]

/-- `(int32_t)` of the immediate of ADDIW. -/
theorem immI_word (insn : U32) : (immI insn).setWidth 32 = (insn.extractLsb' 20 12).signExtend 32 := by
  unfold immI
  generalize (insn.extractLsb' 20 12 : BitVec 12) = imm
  revert imm
  decide +kernel

section Atomic

variable [NetDevice]

theorem loadAtomic_bind {α : Type} (double : Bool) (addr : U64) (k : U64 → Exec α) : loadAtomic double addr >>= k =
    orTrap (rv64CpuLoad addr (if double then 8 else 4) .read) addr >>= fun val =>
      k (if double then val else (val.setWidth 32).signExtend 64) := by
  unfold loadAtomic
  rw [bind_assoc]
  simp only [pure_bind]

variable (double : Bool) (rd rs1 rs2 : BitVec 5) (pc nextPc : U64) (c : Cpu)

theorem run_lr : (Operation.lr double rd rs1).run pc nextPc c =
    (orTrap (rv64CpuLoad (c.x rs1) (if double then 8 else 4) .read) (c.x rs1) >>= fun val => do
      modify fun d => { d with reservation := ⟨true, c.x rs1⟩ }
      wrM rd (if double then val else (val.setWidth 32).signExtend 64)
      return nextPc : Exec U64) c := by
  rw [← loadAtomic_bind double (c.x rs1) fun loaded => (do
    modify fun d => { d with reservation := ⟨true, c.x rs1⟩ }
    wrM rd loaded
    return nextPc)]
  rfl

theorem run_sc : (Operation.sc double rd rs1 rs2).run pc nextPc c =
    (orTrap (rv64CpuLoad (c.x rs1) (if double then 8 else 4) .read) (c.x rs1) >>= fun _ => do
      scAtomic double rd rs2 (c.x rs1)
      return nextPc : Exec U64) c := by
  rw [← loadAtomic_bind double (c.x rs1) fun _ => (do scAtomic double rd rs2 (c.x rs1); return nextPc)]
  rfl

theorem run_amo (op : AmoOp) : (Operation.amo op double rd rs1 rs2).run pc nextPc c =
    (orTrap (rv64CpuLoad (c.x rs1) (if double then 8 else 4) .read) (c.x rs1) >>= fun val => do
      storeAtomic double (c.x rs1)
        (op.spec (if double then val else (val.setWidth 32).signExtend 64) ((← get).x rs2))
      wrM rd (if double then val else (val.setWidth 32).signExtend 64)
      return nextPc : Exec U64) c := by
  rw [← loadAtomic_bind double (c.x rs1) fun loaded => (do
    storeAtomic double (c.x rs1) (op.spec loaded ((← get).x rs2))
    wrM rd loaded
    return nextPc)]
  rfl

end Atomic

section Perform

variable [NetDevice] [HostFp]

/-- The interpreter performs the operation, or it never gets through the instruction. -/
def Performs (insn : U32) (pc nextPc : U64) (c : Cpu) : Option Operation → Prop
  | some op => execInsn insn pc nextPc c = op.run pc nextPc c
  | none => ∀ next d, execInsn insn pc nextPc c ≠ .ok next d

variable {insn : U32} (pc nextPc : U64) (c : Cpu)

theorem performs_lui (h : (opcode insn).toNat = 0x37) : Performs insn pc nextPc c (performed insn) := by
  unfold performed Performs execInsn
  rw [Prog.get_bind_apply, h, immU_eq]
  rfl

theorem performs_auipc (h : (opcode insn).toNat = 0x17) : Performs insn pc nextPc c (performed insn) := by
  unfold performed Performs execInsn
  rw [Prog.get_bind_apply, h, immU_eq]
  rfl

theorem performs_jal (h : (opcode insn).toNat = 0x6F) : Performs insn pc nextPc c (performed insn) := by
  unfold performed Performs execInsn
  rw [Prog.get_bind_apply, h]
  rfl

theorem performs_jalr (h : (opcode insn).toNat = 0x67) : Performs insn pc nextPc c (performed insn) := by
  unfold performed Performs execInsn
  rw [Prog.get_bind_apply, h]
  rfl

theorem performs_branch (h : (opcode insn).toNat = 0x63) : Performs insn pc nextPc c (performed insn) := by
  have hexec : execInsn insn pc nextPc c = (branchTaken (funct3 insn) (c.x (rs1 insn)) (c.x (rs2 insn))).elim
      (illegal insn : Exec U64) (fun taken => return if taken then pc + immB insn else nextPc) c := by
    unfold execInsn
    rw [Prog.get_bind_apply, h]
    cases branchTaken (funct3 insn) (c.x (rs1 insn)) (c.x (rs2 insn)) <;> rfl
  rw [branchTaken_eq] at hexec
  unfold performed
  rw [h]
  cases hop : BranchOp.ofFunct3 (funct3 insn) with
  | none =>
    rw [hop] at hexec
    intro next d hok
    cases hexec.symm.trans hok
  | some op =>
    rw [hop] at hexec
    exact hexec

theorem performs_load (h : (opcode insn).toNat = 0x03) : Performs insn pc nextPc c (performed insn) := by
  have hexec : execInsn insn pc nextPc c = execLoad insn nextPc c := by
    unfold execInsn
    rw [Prog.get_bind_apply, h]
    rfl
  unfold execLoad at hexec
  rw [loadKind_eq] at hexec
  unfold performed
  rw [h]
  cases hop : LoadOp.ofFunct3 (funct3 insn) with
  | none =>
    rw [hop] at hexec
    intro next d hok
    cases hexec.symm.trans hok
  | some op =>
    rw [hop] at hexec
    exact hexec

theorem performs_store (h : (opcode insn).toNat = 0x23) : Performs insn pc nextPc c (performed insn) := by
  have hexec : execInsn insn pc nextPc c = execStore insn nextPc c := by
    unfold execInsn
    rw [Prog.get_bind_apply, h]
    rfl
  unfold execStore at hexec
  rw [storeSize_eq] at hexec
  unfold performed
  rw [h]
  cases hop : StoreOp.ofFunct3 (funct3 insn) with
  | none =>
    rw [hop] at hexec
    intro next d hok
    cases hexec.symm.trans hok
  | some op =>
    rw [hop] at hexec
    exact hexec

theorem performs_imm (h : (opcode insn).toNat = 0x13) : Performs insn pc nextPc c (performed insn) := by
  have hexec : execInsn insn pc nextPc c =
      (do wrM (rd insn) (aluOpImm insn (c.x (rs1 insn))); return nextPc : Exec U64) c := by
    unfold execInsn
    rw [Prog.get_bind_apply, h]
    rfl
  unfold aluOpImm at hexec
  unfold performed
  rw [h]
  rcases funct3_cases (funct3 insn) with h3 | h3 | h3 | h3 | h3 | h3 | h3 | h3
  case inr.inr.inr.inr.inr.inl =>
    rw [h3] at hexec ⊢
    by_cases h7 : funct7 insn >>> 1 ≠ 0
    · simp only [if_pos h7] at hexec ⊢
      exact hexec
    · simp only [if_neg h7] at hexec ⊢
      exact hexec
  all_goals
    rw [h3] at hexec ⊢
    exact hexec

theorem performs_alu (h : (opcode insn).toNat = 0x33) : Performs insn pc nextPc c (performed insn) := by
  unfold performed Performs execInsn
  rw [Prog.get_bind_apply, h, aluOp_eq]
  rfl

theorem performs_immw (h : (opcode insn).toNat = 0x1B) : Performs insn pc nextPc c (performed insn) := by
  have hexec : execInsn insn pc nextPc c =
      (do wr32 insn (aluOpImm32 insn ((c.x (rs1 insn)).setWidth 32)); return nextPc : Exec U64) c := by
    unfold execInsn
    rw [Prog.get_bind_apply, h]
    rfl
  unfold aluOpImm32 at hexec
  rw [immI_word] at hexec
  unfold performed
  rw [h]
  rcases funct3_cases (funct3 insn) with h3 | h3 | h3 | h3 | h3 | h3 | h3 | h3
  case inr.inr.inr.inr.inr.inl =>
    rw [h3] at hexec ⊢
    by_cases h7 : funct7 insn = 0x20
    · simp only [if_pos h7] at hexec ⊢
      exact hexec
    · simp only [if_neg h7] at hexec ⊢
      exact hexec
  case inl | inr.inl =>
    rw [h3] at hexec ⊢
    exact hexec
  all_goals
    rw [h3] at hexec ⊢
    intro next d hok
    cases hexec.symm.trans hok

theorem performs_aluw (h : (opcode insn).toNat = 0x3B) : Performs insn pc nextPc c (performed insn) := by
  have hexec : execInsn insn pc nextPc c = (do
      wr32 insn (aluOp32 (funct7 insn) (funct3 insn) ((c.x (rs1 insn)).setWidth 32) ((c.x (rs2 insn)).setWidth 32))
      return nextPc : Exec U64) c := by
    unfold execInsn
    rw [Prog.get_bind_apply, h]
    rfl
  rw [aluOp32_eq] at hexec
  unfold performed
  rw [h]
  cases hop : WordOp.ofFunct (funct7 insn) (funct3 insn) with
  | none =>
    rw [hop] at hexec
    intro next d hok
    cases hexec.symm.trans hok
  | some op =>
    rw [hop] at hexec
    exact hexec

theorem performs_fence (h : (opcode insn).toNat = 0x0F) : Performs insn pc nextPc c (performed insn) := by
  have hexec : execInsn insn pc nextPc c = (do
      if funct3 insn = 1 then modify jitFlush
      return nextPc : Exec U64) c := by
    unfold execInsn
    rw [Prog.get_bind_apply, h]
    rfl
  unfold performed
  rw [h]
  by_cases h1 : funct3 insn = 1
  · rw [if_pos h1] at hexec ⊢
    exact hexec
  · rw [if_neg h1] at hexec ⊢
    exact hexec

theorem performs_amo (h : (opcode insn).toNat = 0x2F) : Performs insn pc nextPc c (performed insn) := by
  have hexec : execInsn insn pc nextPc c = execAmo insn nextPc c := by
    unfold execInsn
    rw [Prog.get_bind_apply, h]
    rfl
  have hperformed : performed insn = performedAmo insn := by
    unfold performed
    rw [h]
    rfl
  have hfunct5 : (funct7 insn).extractLsb' 2 5 = funct5 insn := rfl
  unfold execAmo at hexec
  rw [Prog.get_bind_apply] at hexec
  simp only [hfunct5] at hexec
  rw [hperformed]
  unfold performedAmo
  dsimp only
  by_cases hlr : funct5 insn = 0x02
  · simp only [if_pos hlr] at hexec ⊢
    have hrun := run_lr (decide (funct3 insn = 3)) (rd insn) (rs1 insn) pc nextPc c
    simp only [decide_eq_true_eq] at hrun
    exact hexec.trans hrun.symm
  by_cases hsc : funct5 insn = 0x03
  · simp only [if_neg hlr, if_pos hsc] at hexec ⊢
    have hrun := run_sc (decide (funct3 insn = 3)) (rd insn) (rs1 insn) (rs2 insn) pc nextPc c
    unfold scAtomic storeAtomic at hrun
    simp only [decide_eq_true_eq] at hrun
    exact hexec.trans hrun.symm
  simp only [if_neg hlr, if_neg hsc, amoResult_ofFunct5] at hexec ⊢
  cases hop : AmoOp.ofFunct5 (funct5 insn) with
  | some op =>
    have hrun := run_amo (decide (funct3 insn = 3)) (rd insn) (rs1 insn) (rs2 insn) pc nextPc c op
    unfold storeAtomic at hrun
    simp only [hop, Option.map_some] at hexec
    simp only [decide_eq_true_eq] at hrun
    exact hexec.trans hrun.symm
  | none =>
    simp only [hop, Option.map_none] at hexec
    intro next d hok
    obtain ⟨val, e, -, hrest⟩ := Prog.bind_eq_ok.1 (hexec.symm.trans hok)
    cases hrest

/-- **For a word of the integer, multiply, atomic, branch, jump and memory opcodes the interpreter performs the operation
read from it**, and where there is none it never gets through. -/
theorem performs (h : (opcode insn).toNat ∈ integerOpcodes) : Performs insn pc nextPc c (performed insn) := by
  simp only [integerOpcodes, List.mem_cons, List.not_mem_nil, or_false] at h
  rcases h with h | h | h | h | h | h | h | h | h | h | h | h | h
  · exact performs_lui pc nextPc c h
  · exact performs_auipc pc nextPc c h
  · exact performs_jal pc nextPc c h
  · exact performs_jalr pc nextPc c h
  · exact performs_branch pc nextPc c h
  · exact performs_load pc nextPc c h
  · exact performs_store pc nextPc c h
  · exact performs_imm pc nextPc c h
  · exact performs_alu pc nextPc c h
  · exact performs_immw pc nextPc c h
  · exact performs_aluw pc nextPc c h
  · exact performs_amo pc nextPc c h
  · exact performs_fence pc nextPc c h

end Perform

end PgLinux
