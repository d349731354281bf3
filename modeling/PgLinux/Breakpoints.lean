import PgLinux.DebugLogs
import PgLinux.RunLoop
/-!
# Breakpoints — snapshots at the breakpoint, in the interpreter and in blocks

`rv64_step` looks for the breakpoint before it fetches.  A block runs its instructions one after the other and looks for
nothing, so what it reaches is never logged.
-/
namespace PgLinux

open Prog Loops

/-! ## The breakpoint -/

/-- VM_CMD_BREAKPOINT. -/
def Cpu.setBreakpoint (cmdArg cmdArgExt : U64) (c : Cpu) : Cpu :=
  { c with dbg := { c.dbg with
    break_pc := cmdArg
    break_halt := (cmdArgExt.setWidth 32 : U32) != 0
    break_active := cmdArg != 0
    break_log_count := 0
    debug_halt := false
    break_log := fun _ => ⟨0, fun _ => 0, fun _ => 0, 0, 0⟩ } }

/-- The breakpoint is at `a`. -/
def Cpu.ArmedAt (c : Cpu) (a : U64) : Prop := c.dbg.break_active = true ∧ a = c.dbg.break_pc

def Cpu.snapshot (c : Cpu) : BreakLog := ⟨c.pc, c.x, c.f, c.x 2, c.instret⟩

/-- From `c` to `c'` the machine `d` is logged. -/
def Logs (c d c' : Cpu) : Prop :=
  c'.dbg.break_log_count = c.dbg.break_log_count + 1 ∧
    c'.dbg.break_log (c.dbg.break_log_count.srem 16) = d.snapshot

/-- The breakpoint and its log are left alone. -/
structure BreakFrame (c c' : Cpu) : Prop where
  pc : c'.dbg.break_pc = c.dbg.break_pc
  active : c'.dbg.break_active = c.dbg.break_active
  halt : c'.dbg.break_halt = c.dbg.break_halt
  debug_halt : c'.dbg.debug_halt = c.dbg.debug_halt
  log : c'.dbg.break_log = c.dbg.break_log
  count : c'.dbg.break_log_count = c.dbg.break_log_count

instance : IsPreorder Cpu BreakFrame where
  refl _ := ⟨rfl, rfl, rfl, rfl, rfl, rfl⟩
  trans _ _ _ h h' := ⟨h'.pc.trans h.pc, h'.active.trans h.active, h'.halt.trans h.halt,
    h'.debug_halt.trans h.debug_halt, h'.log.trans h.log, h'.count.trans h.count⟩

theorem breakFrame_of_dbg {c c' : Cpu} (h : c'.dbg = c.dbg) : BreakFrame c c' := by
  constructor <;> rw [h]

theorem breakFrame_rules : LogRules BreakFrame where
  quiet := breakFrame_of_dbg
  store va size val c := by
    unfold logStore
    split <;> exact ⟨rfl, rfl, rfl, rfl, rfl, rfl⟩
  trap c cause tval := by
    unfold Cpu.logTrap
    split <;> exact ⟨rfl, rfl, rfl, rfl, rfl, rfl⟩
  backfill spp c := by
    unfold backfill
    split <;> exact ⟨rfl, rfl, rfl, rfl, rfl, rfl⟩
  insn _ _ := ⟨rfl, rfl, rfl, rfl, rfl, rfl⟩

section Frames

variable [NetDevice] [HostFp]

/-! ## The interpreter -/

/-- **A step at the breakpoint logs the registers it starts with**, and asks for the halt. -/
theorem rv64Step_logs {c : Cpu} (hrun : c.halted = false) (ha : c.ArmedAt c.pc) :
    Logs c c (rv64Step c) ∧
      (c.dbg.break_halt = true → (rv64Step c).dbg.debug_halt = true ∧ (rv64Step c).dbg.break_halt = true) := by
  obtain ⟨hactive, hpc⟩ := ha
  have hf := breakFrame_rules.rv64Step hrun
  have hb : checkBreak c = { c with dbg := { c.dbg with
      break_log := setAt c.dbg.break_log (c.dbg.break_log_count.srem 16) c.snapshot
      break_log_count := c.dbg.break_log_count + 1
      debug_halt := c.dbg.debug_halt || c.dbg.break_halt } } := if_pos (by simp [hactive, hpc])
  rw [hb] at hf
  refine ⟨⟨hf.count, ?_⟩, fun hhalt => ⟨?_, hf.halt.trans hhalt⟩⟩
  · rw [hf.log]
    simp [setAt]
  · rw [hf.debug_halt]
    simp [hhalt]

/-! ## Blocks -/

/-- The block leaves through an FPU call that has trapped. -/
def fpTraps : Option Label → List SljitOp → JState → Bool
  | _, [], _ => false
  | some l, op :: ops, s => fpTraps (if op = .label l then none else some l) ops s
  | none, op :: ops, s =>
    (op == .icall .fpExec && (s.exec op).regs .R0 == 1) || fpTraps (s.target op) ops (s.exec op)

/-- The addresses whose instructions a block executes: those it counts, and one whose FPU call has trapped.  Any other
instruction that faults is handed back to the interpreter. -/
def blockReached (undef : U64) (c : Cpu) : List U64 :=
  match c.jit, ranBlock c with
  | some j, some (code, d) =>
    let n := ((runBlock undef code d).regs .R0).toNat
    ((lookupBlock j c).1.src.take (if fpTraps none code (blockStart undef d) then n + 1 else n)).map fun i => i.va
  | _, _ => []

def RunLoop.blockReached (l : RunLoop) (undef : U64) (c : Cpu) : List U64 :=
  if l.tries_jit && !c.irqWaiting then PgLinux.blockReached undef c else []

/-- **A block leaves the breakpoint log alone.** -/
theorem block_breakFrame (l : RunLoop) (undef : U64) (c : Cpu) : BreakFrame c (l.block undef c).2 := by
  unfold RunLoop.block
  split
  · exact breakFrame_rules.jitExec undef c
  · exact refl_of BreakFrame c

/-! ## A pass -/

def HaltsAt (p : RunPass) : Prop := ∃ r, p = .exit r ∧ r.reason = .debugHalt

/-- Each time the pass reaches the breakpoint, its registers are logged, and the run stops if it is to: in a block it would
be enough that some machine at that address is logged. -/
structure Caught (l : RunLoop) (h : HostInput) (s : RunState) : Prop where
  block : ∀ c a, l.AboutToStep h.mtime s c → a ∈ l.blockReached h.undef c → c.ArmedAt a →
    (∃ d : Cpu, d.pc = a ∧ Logs c d (l.block h.undef c).2) ∧ (c.dbg.break_halt = true → HaltsAt (l.pass h s))
  step : ∀ c d, l.AboutToStep h.mtime s c → (0 : U32).slt (l.block h.undef c).1 = false → (l.block h.undef c).2 = d →
    d.ArmedAt d.pc → Logs d d (passCpu (l.pass h s)) ∧ (d.dbg.break_halt = true → HaltsAt (l.pass h s))

/-- The pass reaches the breakpoint inside a block. -/
def RunLoop.BreaksInBlock (l : RunLoop) (h : HostInput) (s : RunState) : Prop :=
  ∃ c a, l.AboutToStep h.mtime s c ∧ a ∈ l.blockReached h.undef c ∧ c.ArmedAt a

/-- **The interpreter catches the breakpoint.** -/
theorem attempt_caught {l : RunLoop} {undef : U64} {s : RunState} {c : Cpu} (hawake : s.cpu.halted = false)
    (hstep : (0 : U32).slt (l.block undef s.cpu).1 = false) (hblock : (l.block undef s.cpu).2 = c) (ha : c.ArmedAt c.pc) :
    Logs c c (passCpu (l.attempt undef s)) ∧ (c.dbg.break_halt = true → HaltsAt (l.attempt undef s)) := by
  have hrun : c.halted = false := by
    rw [← hblock]
    exact (block_unretired l undef s.cpu).halted.trans hawake
  obtain ⟨hlogs, hhalts⟩ := rv64Step_logs hrun ha
  unfold RunLoop.attempt
  dsimp only
  rw [hstep, if_neg (by simp), hblock]
  by_cases hexit : ((rv64Step c).dbg.debug_halt && (rv64Step c).dbg.break_halt) = true
  · rw [if_pos hexit]
    exact ⟨hlogs, fun _ => ⟨_, rfl, rfl⟩⟩
  · rw [if_neg hexit]
    refine ⟨hlogs, fun hhalt => absurd ?_ hexit⟩
    simp [hhalts hhalt]

/-- **A pass catches the breakpoint exactly when it does not reach it inside a block.** -/
theorem caught_iff (l : RunLoop) (h : HostInput) (s : RunState) : Caught l h s ↔ ¬ l.BreaksInBlock h s := by
  constructor
  · rintro hcaught ⟨c, a, hc, hreached, harmed⟩
    obtain ⟨⟨d, -, hcount, -⟩, -⟩ := hcaught.block c a hc hreached harmed
    rw [(block_breakFrame l h.undef c).count] at hcount
    exact absurd hcount (by simp)
  · intro hnone
    refine ⟨fun c a hc hreached harmed => absurd ⟨c, a, hc, hreached, harmed⟩ hnone, fun c d hc hstep hblock harmed => ?_⟩
    have hawake : (l.poll h.mtime s).1.cpu.halted = false := by
      rw [hc.cpu]
      exact hc.awake
    rw [← hc.cpu] at hstep hblock
    rw [hc.pass]
    exact attempt_caught hawake hstep hblock harmed

/-- Without the JIT every breakpoint is caught. -/
theorem caught_plainLoop (h : HostInput) (s : RunState) : Caught plainLoop h s := by
  refine (caught_iff plainLoop h s).2 ?_
  rintro ⟨c, a, -, hreached, -⟩
  cases hreached

/-! ## Runs -/

end Frames

/-! ## A loop in a block -/

section Instances

local instance breakpointsNet : NetDevice := NetDevice.silent
local instance breakpointsFp : HostFp := HostFp.zero

/-- ADDI x1, x1, 1; JAL x0, -4. -/
def countingRam : Mem := programAt [0x00108093, 0xFFDFF06F] 0 fun _ => 0

/-- The breakpoint at the head of the loop, to halt there. -/
def countingCpu : Cpu := (rv64Init countingRam 0x80000000).setBreakpoint 0x80000000 1

theorem countingCpu_reaches : 0x80000000 ∈ jitLoop.blockReached 0 countingCpu := by decide +kernel

end Instances

end PgLinux
