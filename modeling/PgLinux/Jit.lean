import PgLinux.Step
/-!
# Jit — running blocks, compiling them and the block cache (`rv64_sljit.c`)

A block runs its operations in order; a taken jump skips to its label, which always lies ahead.  What SLJIT leaves
undefined (the upper half after a 32-bit operation, scratch registers after a call) is `undef`, an arbitrary word.
`sljit_generate_code` is taken to succeed.
-/
namespace PgLinux

variable [NetDevice] [HostFp]

/-! ## Operations -/

structure JState where
  cpu : Cpu
  regs : SReg → U64
  loc : U64
  sigLess : Bool
  less : Bool
  undef : U64

def JState.read (s : JState) : Operand → U64
  | .reg r => s.regs r
  | .imm v => v
  | .x r => s.cpu.x r
  | .pc => s.cpu.pc
  | .loc => s.loc

def JState.write (s : JState) (dst : Operand) (v : U64) : JState :=
  match dst with
  | .reg r => { s with regs := setAt s.regs r v }
  | .imm _ => s
  | .x r => { s with cpu := setX r v s.cpu }
  | .pc => { s with cpu := { s.cpu with pc := v } }
  | .loc => { s with loc := v }

def MovType.convert (t : MovType) (v : U64) : U64 :=
  match t with
  | .mov => v
  | .s8 => (v.setWidth 8).signExtend 64
  | .s16 => (v.setWidth 16).signExtend 64
  | .s32 => (v.setWidth 32).signExtend 64
  | .u8 => (v.setWidth 8).setWidth 64
  | .u16 => (v.setWidth 16).setWidth 64
  | .u32 => (v.setWidth 32).setWidth 64

/-- A 32-bit result in a register whose upper half is undefined. -/
def low32 (undef : U64) (v : U32) : U64 := (undef.extractLsb' 32 32 ++ v : BitVec 64)

/-- Shift amounts are masked to the width of the operation. -/
def Op2.eval (op : Op2) (undef a b : U64) : U64 :=
  let a32 : U32 := a.setWidth 32
  let b32 : U32 := b.setWidth 32
  match op with
  | .add => a + b
  | .sub => a - b
  | .shl => a <<< (b &&& 0x3F)
  | .lshr => a >>> (b &&& 0x3F)
  | .ashr => a.sshiftRight (b &&& 0x3F).toNat
  | .and => a &&& b
  | .or => a ||| b
  | .xor => a ^^^ b
  | .add32 => low32 undef (a32 + b32)
  | .sub32 => low32 undef (a32 - b32)
  | .shl32 => low32 undef (a32 <<< (b32 &&& 0x1F))
  | .lshr32 => low32 undef (a32 >>> (b32 &&& 0x1F))
  | .ashr32 => low32 undef (a32.sshiftRight (b32 &&& 0x1F).toNat)

def Cond.eval (c : Cond) (a b : U64) : Bool :=
  match c with
  | .equal => a == b
  | .notEqual => a != b
  | .sigLess => a.slt b
  | .sigGreaterEqual => !a.slt b
  | .less => decide (a < b)
  | .greaterEqual => decide (b ≤ a)

/-- The flag a subtraction left. -/
def JState.flag (s : JState) (c : Cond) : Bool :=
  match c with
  | .sigLess => s.sigLess
  | .less => s.less
  | _ => s.undef.getLsbD 0

/-- The registers after a call that answers `r`. -/
def JState.returned (s : JState) (r : U64) (c : Cpu) : JState :=
  { s with
    cpu := c
    regs := fun q => match q with
      | .R0 => r
      | .R1 | .R2 | .R3 => s.undef
      | .S0 | .S1 => s.regs q
    sigLess := s.undef.getLsbD 1
    less := s.undef.getLsbD 2 }

/-- A call of one of the C helpers. -/
def JState.call (s : JState) (f : ICall) : JState :=
  match f with
  | .load =>
    match rv64CpuLoad (s.regs .R1) (s.regs .R2).toNat .read s.cpu with
    | .ok v c => { s.returned 0 c with loc := v }
    | .error exc c => s.returned exc c
  | .store =>
    match cpuStore (s.regs .R1) (s.regs .R2).toNat (s.regs .R3) s.cpu with
    | .ok _ c => s.returned 0 c
    | .error exc c => s.returned exc c
  | .fpExec =>
    match rv64FpExec ((s.regs .R1).setWidth 32) s.cpu with
    | (.ok, c) => s.returned 0 c
    | (.illegal, c) => s.returned (~~~0) c
    | (.faulted, c) => s.returned 1 c

/-- An operation that does not jump. -/
def JState.exec (s : JState) : SljitOp → JState
  | .mov t dst src => s.write dst (t.convert (s.read src))
  | .op2 op dst a b =>
    let s' := if op = .sub
      then { s with sigLess := (s.read a).slt (s.read b), less := decide (s.read a < s.read b) } else s
    s'.write dst (op.eval s.undef (s.read a) (s.read b))
  | .flags dst c => s.write (.reg dst) (boolWord (s.flag c))
  | .localBase dst => s.write (.reg dst) s.undef
  | .icall f => s.call f
  | .cmp .. | .jump _ | .label _ => s

/-- Where an operation goes: `some l` skips to label `l`. -/
def JState.target (s : JState) : SljitOp → Option Label
  | .cmp c a b l => if c.eval (s.read a) (s.read b) then some l else none
  | .jump l => some l
  | _ => none

/-- The operations in order, skipping to `l` in mode `some l`. -/
def runOps : Option Label → List SljitOp → JState → Option Label × JState
  | mode, [], s => (mode, s)
  | some l, op :: ops, s => runOps (if op = .label l then none else some l) ops s
  | none, op :: ops, s => runOps (s.target op) ops (s.exec op)

/-! ## Compilation -/

/-- What the decoder emits for a fetched word. -/
def emitWord (disabled : BitVec 128) (word : U32) (pc : U64) : Emitted :=
  let insn := if isCompressed word then sljitUncompress (word.setWidth 16) else word
  if isCompressed word ∧ insn = 0 then .unsupported []
  else if disabled.getLsbD (opcode insn).toNat then .unsupported []
  else emitInsn insn pc (isCompressed word)

/-- The locals of `jit_compile_block`. -/
structure Compile where
  pc : U64
  ops : List SljitOp
  src : List JitSrc
  insn_count : Nat
  num_epilogue_jumps : Nat
  unsupported : Bool

def countOp : SljitOp := .op2 .add (.reg .S1) (.reg .S1) (.imm 1)

/-- An instruction taken into the block; the fall-through pc is written when the block goes on. -/
def Compile.take (k : Compile) (word : U32) (e : Emitted) : Compile × Bool :=
  let jumps := k.num_epilogue_jumps + if e.epilogue_jump then 1 else 0
  let ended := e.block_ended || (e.epilogue_jump && decide (60 < jumps))
  let pc := k.pc + insnBytes (isCompressed word)
  ({ k with
    pc := if ended then k.pc else pc
    ops := k.ops ++ e.ops ++ [countOp] ++ if ended then [] else [.mov .mov .pc (.imm pc)]
    src := k.src ++ [⟨k.pc, word⟩]
    insn_count := k.insn_count + 1
    num_epilogue_jumps := jumps }, ended)

/-- The loop of `jit_compile_block`, with `n` instructions to go before the length limit. -/
def compileLoop (disabled : BitVec 128) : Nat → Compile → Cpu → Compile × Cpu
  | 0, k, c => (k, c)
  | n + 1, k, c =>
    match rv64CpuLoad k.pc 4 .exec c with
    | .error _ c => (k, c)
    | .ok val c =>
      let word : U32 := val.setWidth 32
      let e := emitWord disabled word k.pc
      if !e.supported then ({ k with ops := k.ops ++ e.ops, unsupported := true }, c)
      else
        let r := k.take word e
        if r.2 then (r.1, c) else compileLoop disabled n r.1 c

def jitMaxBlockInsns : Nat := 64

def maxInsns (j : JitState) : Nat := if (0 : U32).slt j.rt_max_block_insns then j.rt_max_block_insns.toNat else jitMaxBlockInsns

def Compile.start (pc : U64) : Compile := ⟨pc, [], [], 0, 0, false⟩

/-- The finished block: no code when its first instruction is not supported. -/
def Compile.block (k : Compile) (guestPc : U64) : JitBlock :=
  { guest_pc := guestPc
    host_code := if k.unsupported ∧ k.insn_count = 0 then none
      else some ([.mov .mov (.reg .S1) (.imm 0)] ++ k.ops ++ [.label .epilogue, .mov .mov r0 (.reg .S1)])
    insn_count := k.insn_count
    valid := true
    src := k.src }

def cacheIndex (pc : U64) : BitVec 16 := (pc >>> 1).setWidth 16

def storeBlock (b : JitBlock) (c : Cpu) : Cpu :=
  { c with jit := c.jit.map fun j => { j with cache := setAt j.cache (cacheIndex b.guest_pc) b } }

def jitCompileBlock (j : JitState) (guestPc : U64) (c : Cpu) : JitBlock × Cpu :=
  let r := compileLoop j.disabled_ops (maxInsns j) (.start guestPc) c
  let b := r.1.block guestPc
  (b, storeBlock b r.2)

/-- The registers at block entry hold whatever the caller left. -/
def runBlock (undef : U64) (code : List SljitOp) (c : Cpu) : JState :=
  (runOps none code ⟨c, fun _ => undef, undef, false, false, undef⟩).2

/-- The block for the pc: the cached one, or a new one. -/
def lookupBlock (j : JitState) (c : Cpu) : JitBlock × Cpu :=
  let b := j.cache (cacheIndex c.pc)
  if !b.valid || b.guest_pc != c.pc then jitCompileBlock j c.pc c else (b, c)

/-- `jit_exec`: the number of instructions run, 0 when there is nothing to run. -/
def jitExec (undef : U64) (c : Cpu) : U64 × Cpu :=
  match c.jit with
  | none => (0, c)
  | some j =>
    if !j.enabled then (0, c)
    else
      let r := lookupBlock j c
      match r.1.host_code with
      | none => (0, r.2)
      | some code =>
        let s := runBlock undef code r.2
        (s.regs .R0, { s.cpu with instret := s.cpu.instret + s.regs .R0 })

/-- The block that `jit_exec` runs, and the machine after its compilation. -/
def ranBlock (c : Cpu) : Option (List SljitOp × Cpu) :=
  match c.jit with
  | none => none
  | some j =>
    if !j.enabled then none else (lookupBlock j c).1.host_code.map fun code => (code, (lookupBlock j c).2)

def blockStart (undef : U64) (c : Cpu) : JState := ⟨c, fun _ => undef, undef, false, false, undef⟩

end PgLinux
