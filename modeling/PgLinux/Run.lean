import PgLinux.Jit
/-!
# Run — the moves of the run loops (`rv64_run`, `rv64_run_jit`)

Between two looks at the host clock a loop runs a block, a step or the interrupt check; the rest of its body writes the
clock, the cycle count and the halt flags.
-/
namespace PgLinux

variable [NetDevice] [HostFp]

/-- What the loops write themselves. -/
def Cpu.tick (c : Cpu) (mtime cycle : U64) (halted pendingIrq debugHalt : Bool) : Cpu :=
  { c with
    bus := { c.bus with clint := { c.bus.clint with mtime := mtime } }
    cycle := cycle
    halted := halted
    pending_irq_check := pendingIrq
    dbg := { c.dbg with debug_halt := debugHalt } }

inductive MachineStep : Cpu → Cpu → Prop
  | step (c : Cpu) : MachineStep c (rv64Step c)
  | jit (undef : U64) (c : Cpu) : MachineStep c (jitExec undef c).2
  | interrupts (c : Cpu) : MachineStep c (checkInterrupts c).1
  | tick (c : Cpu) (mtime cycle : U64) (halted pendingIrq debugHalt : Bool) :
    MachineStep c (c.tick mtime cycle halted pendingIrq debugHalt)

/-- A run of the machine. -/
abbrev MachineRun : Cpu → Cpu → Prop := Relation.ReflTransGen MachineStep

/-- The moves by name. -/
inductive Move where
  | step
  | jit (undef : U64)
  | interrupts
  | tick (mtime cycle : U64) (halted pendingIrq debugHalt : Bool)

def Move.run (c : Cpu) : Move → Cpu
  | .step => rv64Step c
  | .jit undef => (jitExec undef c).2
  | .interrupts => (checkInterrupts c).1
  | .tick mtime cycle halted pendingIrq debugHalt => c.tick mtime cycle halted pendingIrq debugHalt

theorem machineStep_iff {c c' : Cpu} : MachineStep c c' ↔ ∃ m : Move, c' = m.run c := by
  constructor
  · intro h
    cases h with
    | step => exact ⟨.step, rfl⟩
    | jit undef => exact ⟨.jit undef, rfl⟩
    | interrupts => exact ⟨.interrupts, rfl⟩
    | tick _ mtime cycle halted pendingIrq debugHalt => exact ⟨.tick mtime cycle halted pendingIrq debugHalt, rfl⟩
  · rintro ⟨m, rfl⟩
    cases m with
    | step => exact .step c
    | jit undef => exact .jit undef c
    | interrupts => exact .interrupts c
    | tick mtime cycle halted pendingIrq debugHalt => exact .tick c mtime cycle halted pendingIrq debugHalt

/-! ## Programs that run by themselves -/

def programAt : List U32 → U64 → Mem → Mem
  | [], _, m => m
  | w :: ws, a, m => programAt ws (a + 4) (m.write a 4 (w.setWidth 64))

def stepTimes : Nat → Cpu → Cpu
  | 0, c => c
  | n + 1, c => stepTimes n (rv64Step c)

theorem stepTimes_run : ∀ (n : Nat) (c : Cpu), MachineRun c (stepTimes n c)
  | 0, _ => .refl
  | n + 1, c => .head (.step c) (stepTimes_run n _)

/-- The states after the first `n` steps. -/
def stepStates : Nat → Cpu → List Cpu
  | 0, _ => []
  | n + 1, c => rv64Step c :: stepStates n (rv64Step c)

theorem stepTimes_mem : ∀ (n : Nat) (c : Cpu), stepTimes n c ∈ c :: stepStates n c
  | 0, _ => List.mem_cons_self ..
  | n + 1, c => List.mem_cons_of_mem _ (stepTimes_mem n (rv64Step c))

theorem stepStates_isChain {R : Cpu → Cpu → Prop} : ∀ (n : Nat) (c : Cpu),
    (∀ i < n, R (stepTimes i c) (stepTimes (i + 1) c)) → List.IsChain R (c :: stepStates n c)
  | 0, c, _ => .singleton c
  | n + 1, c, h =>
    .cons_cons (h 0 n.zero_lt_succ) (stepStates_isChain n (rv64Step c) fun i hi => h (i + 1) (Nat.succ_lt_succ hi))

theorem stepStates_steps : ∀ (n : Nat) (c : Cpu), List.IsChain MachineStep (c :: stepStates n c)
  | 0, c => .singleton c
  | n + 1, c => .cons_cons (.step c) (stepStates_steps n (rv64Step c))

end PgLinux
