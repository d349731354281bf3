import PgLinux.HungCalls
import PgLinux.Lib.Loops
/-!
# RunLoop — when `rv64_run` and `rv64_run_jit` return

A pass is one round of the outer loop, or of the inner loop that waits in WFI.  Each pass reads the host's clock and may
see the words a block leaves undefined.  Three things keep a loop: a pass that calls the network device and does not come
back, passes that trap without end, for a trap costs no cycle, and a cycle counter that is carried past its top for ever.
-/
namespace PgLinux

open Prog Loops

/-! ## The loops -/

/-- What a pass takes from the host; `mtime` is the clock in 100 ns ticks since boot. -/
structure HostInput where
  mtime : U64
  undef : U64

inductive RunExitReason where
  | budget | wfiTimeout | debugHalt | error
deriving DecidableEq

/-- What the machine is left as, and `cpu->cycle - start`. -/
structure RunExit where
  reason : RunExitReason
  cpu : Cpu
  ran : U64

/-- Where the two loops differ. -/
structure RunLoop where
  check_interval : U64
  checks_pending : Bool
  tries_jit : Bool
  reports_halt : Bool

/-- The loop of `rv64_run`. -/
def plainLoop : RunLoop := ⟨9973, true, false, true⟩

/-- The loop of `rv64_run_jit`. -/
def jitLoop : RunLoop := ⟨10000, false, true, false⟩

/-- The locals of a run loop, and the machine. -/
structure RunState where
  cpu : Cpu
  start : U64
  max_cycles : U64
  next_check_cycle : U64
  in_wfi : Bool

abbrev RunPass := Pass RunState RunExit

def passCpu : RunPass → Cpu
  | .again s => s.cpu
  | .exit r => r.cpu

def RunState.leave (s : RunState) (reason : RunExitReason) (c : Cpu) : RunPass := .exit ⟨reason, c, c.cycle - s.start⟩

def Cpu.setMtime (c : Cpu) (mtime : U64) : Cpu :=
  { c with bus := { c.bus with clint := { c.bus.clint with mtime := mtime } } }

def Cpu.clearHalt (c : Cpu) : Cpu := { c with dbg := { c.dbg with debug_halt := false } }

def Cpu.irqWaiting (c : Cpu) : Bool := c.csr.mip &&& c.csr.mie != 0


section Model

variable [NetDevice]

/-- The timer and interrupt check at the top of a pass, and whether an interrupt was taken. -/
def RunLoop.poll (l : RunLoop) (mtime : U64) (s : RunState) : RunState × Bool :=
  let due := decide (s.next_check_cycle ≤ s.cpu.cycle)
  if due || l.checks_pending && s.cpu.pending_irq_check then
    let c := if due then s.cpu.setMtime mtime else s.cpu
    let next := if due then s.cpu.cycle + l.check_interval else s.next_check_cycle
    let c := if l.checks_pending then { c with pending_irq_check := false } else c
    let r := checkInterrupts c
    ({ s with cpu := r.1, next_check_cycle := next }, r.2)
  else (s, false)

/-- A pass of the inner loop. -/
def RunLoop.wfi (l : RunLoop) (mtime : U64) (s : RunState) : RunPass :=
  if s.cpu.halted ∧ s.cpu.cycle < s.max_cycles then
    let c := (checkInterrupts { s.cpu.setMtime mtime with cycle := s.cpu.cycle + l.check_interval }).1
    if c.irqWaiting then .again { s with cpu := { c with halted := false }, in_wfi := false }
    else .again { s with cpu := c }
  else if s.cpu.halted then s.leave .wfiTimeout s.cpu
  else .again { s with in_wfi := false }

variable [HostFp]

/-- The block that is tried before the interpreter, and how many instructions it ran. -/
def RunLoop.block (l : RunLoop) (undef : U64) (c : Cpu) : U32 × Cpu :=
  if l.tries_jit && !c.irqWaiting then
    let r := jitExec undef c
    (r.1.setWidth 32, r.2)
  else (0, c)

/-- A block, or one step; `rv64_step` never returns -1. -/
def RunLoop.attempt (l : RunLoop) (undef : U64) (s : RunState) : RunPass :=
  let r := l.block undef s.cpu
  if (0 : U32).slt r.1 then .again { s with cpu := { r.2 with cycle := r.2.cycle + r.1.signExtend 64 } }
  else
    let c := rv64Step r.2
    if c.dbg.debug_halt && c.dbg.break_halt then s.leave .debugHalt c
    else .again { s with cpu := c.clearHalt }

/-- The exit reason after the loop condition failed. -/
def RunLoop.fallThrough (l : RunLoop) (c : Cpu) : RunExitReason :=
  if l.reports_halt && c.dbg.debug_halt then .debugHalt else if c.error then .error else .budget

def RunLoop.pass (l : RunLoop) (h : HostInput) (s : RunState) : RunPass :=
  if s.in_wfi then l.wfi h.mtime s
  else if s.cpu.cycle < s.max_cycles ∧ s.cpu.error = false then
    let r := l.poll h.mtime s
    if r.2 then .again r.1
    else if r.1.cpu.halted then
      if r.1.cpu.csr.mie = 0 then .again { r.1 with cpu := { r.1.cpu with halted := false } }
      else .again { r.1 with in_wfi := true }
    else l.attempt h.undef r.1
  else s.leave (l.fallThrough s.cpu) s.cpu

def RunLoop.enter (l : RunLoop) (n : U64) (c : Cpu) : RunState := ⟨c, c.cycle, c.cycle + n, c.cycle + l.check_interval, false⟩

/-- The loop that `rv64_run` runs. -/
def runLoop (c : Cpu) : RunLoop := if c.jit.any fun j => j.enabled then jitLoop else plainLoop

/-- `rv64_run_jit` after `k` passes. -/
def rv64RunJit (h : Nat → HostInput) (n : U64) (c : Cpu) (k : Nat) : RunPass := after jitLoop.pass h (jitLoop.enter n c) k

/-- `rv64_run` after `k` passes. -/
def rv64Run (h : Nat → HostInput) (n : U64) (c : Cpu) (k : Nat) : RunPass :=
  after (runLoop c).pass h ((runLoop c).enter n c) k

end Model

/-! ## What does not retire -/

/-- What the loops look at, apart from interrupts. -/
structure Unretired (c c' : Cpu) : Prop where
  cycle : c'.cycle = c.cycle
  error : c'.error = c.error
  halted : c'.halted = c.halted
  pending : c'.pending_irq_check = c.pending_irq_check

instance : IsPreorder Cpu Unretired where
  refl _ := ⟨rfl, rfl, rfl, rfl⟩
  trans _ _ _ h h' := ⟨h'.cycle.trans h.cycle, h'.error.trans h.error, h'.halted.trans h.halted,
    h'.pending.trans h.pending⟩

def Counted (c c' : Cpu) : Prop := c'.cycle = c.cycle ∧ c'.error = c.error

instance : IsPreorder Cpu Counted where
  refl _ := ⟨rfl, rfl⟩
  trans _ _ _ h h' := ⟨h'.1.trans h.1, h'.2.trans h.2⟩

theorem Unretired.counted {c c' : Cpu} (h : Unretired c c') : Counted c c' := ⟨h.cycle, h.error⟩

theorem trap_unretired (c : Cpu) (cause tval : U64) : Unretired c (trap c cause tval) := by
  obtain ⟨r, p, pc, d, h⟩ := trap_frame c cause tval
  rw [h]
  exact ⟨rfl, rfl, rfl, rfl⟩

theorem access_unretired {α : Type} {m : Access α} (h : Leads AccessFrame m) : Leads Unretired m :=
  h.mono fun c c' hf => by
    obtain ⟨t, b, d, rfl⟩ := hf
    exact ⟨rfl, rfl, rfl, rfl⟩

theorem checkBreak_unretired (c : Cpu) : Unretired c (checkBreak c) := by
  obtain ⟨t, b, d, h⟩ := checkBreak_frame c
  rw [h]
  exact ⟨rfl, rfl, rfl, rfl⟩

theorem csrWriteChecked_counted (csr : BitVec 12) (val : U64) (c : Cpu) : Counted c (csrWriteChecked csr val c) := by
  obtain ⟨r, f, t, j, h⟩ := csrWrite_frame c csr val
  unfold csrWriteChecked
  rw [h]
  dsimp only
  split <;> exact ⟨rfl, rfl⟩

theorem sret_counted (c : Cpu) : Counted c (sret c) := by
  unfold sret backfill
  dsimp only
  split <;> exact ⟨rfl, rfl⟩

theorem execCsr_error {insn : U32} {nextPc : U64} {c d : Cpu} (h : execCsr insn nextPc c = .error () d) : Unretired c d := by
  unfold execCsr at h
  rw [get_bind_apply] at h
  dsimp only at h
  cases hr : csrRead c (insn.extractLsb' 20 12) with
  | none =>
    rw [hr] at h
    cases h
    exact trap_unretired c _ _
  | some old =>
    rw [hr] at h
    dsimp only at h
    generalize (if (funct3 insn).getLsbD 2 then (rs1 insn).setWidth 64 else c.x (rs1 insn)) = src at h
    split at h <;> cases h

theorem execSystem_error {insn : U32} {nextPc : U64} {c d : Cpu} (h : execSystem insn nextPc c = .error () d) :
    Unretired c d := by
  unfold execSystem at h
  rw [get_bind_apply] at h
  split_ifs at h
  all_goals first | (cases h; exact trap_unretired c _ _) | cases h

section Insn

variable [NetDevice]

theorem unretired_rules : ExecRules Unretired where
  wr _ _ _ := ⟨rfl, rfl, rfl, rfl⟩
  reserve _ _ := ⟨rfl, rfl, rfl, rfl⟩
  load va size access := access_unretired (rv64CpuLoad_frame va size access)
  store va size val := access_unretired (cpuStore_frame va size val)
  trap := trap_unretired
  jitFlush _ := ⟨rfl, rfl, rfl, rfl⟩

/-- The machine where an instruction starts, after its fetch. -/
theorem fetchInsn_unretired (c : Cpu) : Unretired c (final (fetchInsn c.pc (checkBreak c))) :=
  trans_of Unretired (checkBreak_unretired c) (unretired_rules.toLoad.fetchInsn c.pc (checkBreak c))

theorem counted_rules : ExecRules Counted := unretired_rules.mono fun _ _ => Unretired.counted

variable [HostFp]

theorem rv64FpExec_unretired (insn : U32) (c : Cpu) : Unretired c (rv64FpExec insn c).2 := by
  refine unretired_rules.rv64FpExec (fun _ => ⟨rfl, rfl, rfl, rfl⟩) (fun _ _ => ⟨rfl, rfl, rfl, rfl⟩) fun d hd => ?_
  obtain ⟨x, f, rfl⟩ := fpCompute_regs _ _ d hd
  exact ⟨rfl, rfl, rfl, rfl⟩

theorem execInsn_counted (insn : U32) (pc nextPc : U64) : Leads Counted (execInsn insn pc nextPc) := by
  have hsystem : Leads Counted (execSystem insn nextPc) :=
    counted_rules.toLoad.execSystem (fun _ c => ⟨⟨rfl, rfl⟩, sret_counted c⟩) (fun _ => ⟨rfl, rfl⟩) (fun _ => ⟨rfl, rfl⟩) nextPc
  exact counted_rules.execInsn (fun _ c => (rv64FpExec_unretired insn c).counted)
    (fun _ => leads_ite hsystem (counted_rules.toLoad.execCsr csrWriteChecked_counted insn nextPc)) pc

/-- **An instruction that stops has only trapped.** -/
theorem execInsn_error {insn : U32} {pc nextPc : U64} {c d : Cpu} (h : execInsn insn pc nextPc c = .error () d) :
    Unretired c d := by
  by_cases hop : opcode insn = 0x73
  · have hnat : (opcode insn).toNat = 0x73 := by rw [hop]; rfl
    unfold execInsn at h
    rw [get_bind_apply] at h
    simp only [hnat] at h
    split at h
    · exact execSystem_error h
    · exact execCsr_error h
  · have hleads : Unretired c (final (execInsn insn pc nextPc c)) :=
      unretired_rules.execInsn (fun _ => rv64FpExec_unretired insn) (fun hs => absurd hs hop) pc c
    rw [h] at hleads
    exact hleads

/-- **A step that traps leaves the cycle count alone.** -/
theorem stepBody_error {c d : Cpu} (h : stepBody c = .error () d) : Unretired c d := by
  have hfetch := fetchInsn_unretired c
  rw [stepBody_eq] at h
  cases hf : fetchInsn c.pc (checkBreak c) with
  | error e e' =>
    rw [hf] at h hfetch
    cases h
    exact hfetch
  | ok word e =>
    rw [hf] at h hfetch
    have hlog : Unretired c (logInsn word e) := ⟨hfetch.cycle, hfetch.error, hfetch.halted, hfetch.pending⟩
    dsimp only at h
    rcases expandInsn_cases word with ⟨insn, he⟩ | he
    · rw [afterFetch_insn he] at h
      cases hx : execInsn insn c.pc (c.pc + insnBytes (isCompressed word)) (logInsn word e) with
      | ok nextPc e' => rw [hx] at h; cases h
      | error e' e'' =>
        rw [hx] at h
        cases h
        exact trans_of Unretired hlog (execInsn_error hx)
    · unfold afterFetch at h
      rw [he] at h
      cases h
      exact trans_of Unretired hlog (trap_unretired _ _ _)

/-- **A step that does not trap counts one cycle.** -/
theorem stepBody_ok {c d : Cpu} (h : stepBody c = .ok () d) : d.cycle = c.cycle + 1 ∧ d.error = c.error := by
  have hfetch := fetchInsn_unretired c
  rw [stepBody_eq] at h
  cases hf : fetchInsn c.pc (checkBreak c) with
  | error e e' => rw [hf] at h; cases h
  | ok word e =>
    rw [hf] at h hfetch
    dsimp only at h
    rcases expandInsn_cases word with ⟨insn, he⟩ | he
    · rw [afterFetch_insn he] at h
      have hexec := execInsn_counted insn c.pc (c.pc + insnBytes (isCompressed word)) (logInsn word e)
      cases hx : execInsn insn c.pc (c.pc + insnBytes (isCompressed word)) (logInsn word e) with
      | error e' e'' => rw [hx] at h; cases h
      | ok nextPc e' =>
        rw [hx] at h hexec
        cases h
        have hcycle : e'.cycle = c.cycle := hexec.1.trans hfetch.cycle
        refine ⟨?_, hexec.2.trans hfetch.error⟩
        show e'.cycle + 1 = c.cycle + 1
        rw [hcycle]
    · unfold afterFetch at h
      rw [he] at h
      cases h

theorem jitExec_unretired (undef : U64) (c : Cpu) : Unretired c (jitExec undef c).2 :=
  unretired_rules.jitExec (fun _ _ => ⟨rfl, rfl, rfl, rfl⟩)
    (fun _ => {
      pc := fun _ _ => ⟨rfl, rfl, rfl, rfl⟩
      write := fun _ _ _ _ _ _ => ⟨rfl, rfl, rfl, rfl⟩
      load := unretired_rules.load
      store := unretired_rules.store
      fpExec := fun _ => rv64FpExec_unretired })
    (fun _ _ => ⟨rfl, rfl, rfl, rfl⟩) undef c

end Insn

/-! ## What keeps a loop -/

section Kept

variable [NetDevice]

/-- The pass from `s` runs an instruction, at `c`. -/
structure RunLoop.AboutToStep (l : RunLoop) (mtime : U64) (s : RunState) (c : Cpu) : Prop where
  running : s.in_wfi = false
  budget : s.cpu.cycle < s.max_cycles
  ok : s.cpu.error = false
  untaken : (l.poll mtime s).2 = false
  cpu : (l.poll mtime s).1.cpu = c
  awake : c.halted = false

variable [HostFp]

/-- No block runs at `c`, its instruction traps, and no breakpoint stops the loop. -/
def RunLoop.Traps (l : RunLoop) (undef : U64) (c d : Cpu) : Prop :=
  (0 : U32).slt (l.block undef c).1 = false ∧
    ∃ e, stepBody (l.block undef c).2 = .error () e ∧ (e.dbg.debug_halt && e.dbg.break_halt) = false ∧ d = e.clearHalt

/-- The pass from `s` ends in a trap: its check takes an interrupt, or its instruction traps. -/
inductive RunLoop.TrapPass (l : RunLoop) (h : HostInput) (s : RunState) : RunState → Prop
  | interrupt (running : s.in_wfi = false) (budget : s.cpu.cycle < s.max_cycles) (ok : s.cpu.error = false)
      (taken : (l.poll h.mtime s).2 = true) : l.TrapPass h s (l.poll h.mtime s).1
  | insn {c d : Cpu} (step : l.AboutToStep h.mtime s c) (trap : l.Traps h.undef c d) :
      l.TrapPass h s { (l.poll h.mtime s).1 with cpu := d }

/-- Every pass from `s` on ends in a trap. -/
def RunLoop.TrapStorm (l : RunLoop) (h : Nat → HostInput) (s : RunState) : Prop :=
  ∃ f : Nat → RunState, f 0 = s ∧ ∀ k, l.TrapPass (h k) (f k) (f (k + 1))

/-- No pass of the loop comes to a storm. -/
def RunLoop.StormFree (l : RunLoop) (h : Nat → HostInput) (s : RunState) : Prop :=
  ∀ k t, after l.pass h s k = .again t → ¬ l.TrapStorm (fun j => h (k + j)) t

/-- The pass carries the cycle counter past its top. -/
def RunLoop.Wraps (l : RunLoop) (h : HostInput) (s : RunState) : Prop :=
  ∃ v, l.pass h s = .again v ∧ v.cpu.cycle < s.cpu.cycle

/-- So does some pass after every pass. -/
def RunLoop.WrapsForEver (l : RunLoop) (h : Nat → HostInput) (s : RunState) : Prop :=
  ∀ n, ∃ k t, n ≤ k ∧ after l.pass h s k = .again t ∧ l.Wraps (h k) t

/-- The pass calls the network device, which does not return. -/
def RunLoop.Hangs (l : RunLoop) (h : HostInput) (s : RunState) : Prop := s.cpu.netHung < (passCpu (l.pass h s)).netHung

/-- No pass of the loop hangs. -/
def RunLoop.HangFree (l : RunLoop) (h : Nat → HostInput) (s : RunState) : Prop :=
  ∀ k t, after l.pass h s k = .again t → ¬ l.Hangs (h k) t

/-- Nothing keeps the loop. -/
structure RunLoop.Free (l : RunLoop) (h : Nat → HostInput) (s : RunState) : Prop where
  hangs : l.HangFree h s
  storms : l.StormFree h s
  wraps : ¬ l.WrapsForEver h s

end Kept

/-! ## One pass -/

/-- The timer is not due and no check is pending. -/
def RunLoop.Settled (l : RunLoop) (s : RunState) : Prop :=
  s.cpu.cycle < s.next_check_cycle ∧ (l.checks_pending && s.cpu.pending_irq_check) = false

def RunLoop.Paced (l : RunLoop) : Prop := 0 < l.check_interval.toNat ∧ l.check_interval.toNat ≤ 10000

theorem toNat_add_of_room {a b : U64} (h : a.toNat + b.toNat < 2 ^ 64) : (a + b).toNat = a.toNat + b.toNat := by
  rw [BitVec.toNat_add, Nat.mod_eq_of_lt h]

/-- A positive `int`, converted to `uint64_t`. -/
theorem toNat_signExtend_of_slt {r : U32} (h : (0 : U32).slt r = true) :
    (r.signExtend 64).toNat = r.toNat ∧ 0 < r.toNat ∧ r.toNat < 2 ^ 31 := by
  have hpos : 0 < r.toInt := by simpa [BitVec.slt] using h
  have hlt : r.toNat < 2 ^ 31 := by
    rw [BitVec.toInt_eq_toNat_cond] at hpos
    have := r.isLt
    split at hpos <;> omega
  have hmsb : r.msb = false := by
    rw [BitVec.msb_eq_decide]
    simp
    omega
  have hint : r.toInt = r.toNat := by
    rw [BitVec.toInt_eq_toNat_cond, if_pos (by omega)]
  refine ⟨?_, by omega, hlt⟩
  rw [BitVec.signExtend_eq_setWidth_of_msb_false hmsb, BitVec.toNat_setWidth, Nat.mod_eq_of_lt (by omega)]

/-- Some cycles are counted, and fewer than an `int` holds. -/
def CountsOn (c d : Cpu) : Prop := ∃ n : U64, 0 < n.toNat ∧ n.toNat < 2 ^ 31 ∧ d.cycle = c.cycle + n

theorem CountsOn.ne {c d : Cpu} (h : CountsOn c d) : d.cycle ≠ c.cycle := by
  obtain ⟨n, hpos, -, hn⟩ := h
  rw [hn]
  bv_omega

section Pass

variable [NetDevice] {l : RunLoop} {mtime : U64} {s : RunState}

theorem checkInterrupts_counted (c : Cpu) : Counted c (checkInterrupts c).1 ∧
    (checkInterrupts c).1.pending_irq_check = c.pending_irq_check ∧
    ((checkInterrupts c).2 = true → (checkInterrupts c).1.halted = false) ∧
    ((checkInterrupts c).2 = false → (checkInterrupts c).1.halted = c.halted) := by
  have hpoll : Unretired c (pollNet (updateMip c)) := by
    unfold pollNet
    split <;> exact ⟨rfl, rfl, rfl, rfl⟩
  unfold checkInterrupts
  dsimp only
  split
  next cause _ =>
    have htrap := trans_of Unretired hpoll (trap_unretired _ cause 0)
    exact ⟨⟨htrap.cycle, htrap.error⟩, htrap.pending, fun _ => rfl, fun h => by cases h⟩
  next => exact ⟨hpoll.counted, hpoll.pending, fun h => (by cases h), fun _ => hpoll.halted⟩

theorem RunLoop.Settled.poll (h : l.Settled s) : l.poll mtime s = (s, false) := by
  have hdue : decide (s.next_check_cycle ≤ s.cpu.cycle) = false := by
    simpa using h.1
  unfold RunLoop.poll
  dsimp only
  rw [hdue, h.2]
  rfl

/-- **Only the machine and the next check differ after the check at the top.** -/
theorem poll_spec (l : RunLoop) (mtime : U64) (s : RunState) :
    ∃ d x, (l.poll mtime s).1 = { s with cpu := d, next_check_cycle := x } ∧ Counted s.cpu d ∧
      ((l.poll mtime s).2 = true → d.halted = false) ∧ ((l.poll mtime s).2 = false → d.halted = s.cpu.halted) := by
  unfold RunLoop.poll
  dsimp only
  split
  next =>
    generalize hc : (if decide (s.next_check_cycle ≤ s.cpu.cycle) = true then s.cpu.setMtime mtime else s.cpu) = c
    have hclock : Unretired s.cpu c := by
      rw [← hc]
      split <;> exact ⟨rfl, rfl, rfl, rfl⟩
    generalize hd : (if l.checks_pending = true then { c with pending_irq_check := false } else c) = d
    have hcount : Counted s.cpu d ∧ d.halted = s.cpu.halted := by
      rw [← hd]
      split <;> exact ⟨hclock.counted, hclock.halted⟩
    obtain ⟨hci, -, htaken, huntaken⟩ := checkInterrupts_counted d
    exact ⟨_, _, rfl, trans_of Counted hcount.1 hci, htaken, fun h => (huntaken h).trans hcount.2⟩
  next => exact ⟨s.cpu, s.next_check_cycle, rfl, ⟨rfl, rfl⟩, fun h => (by cases h), fun _ => rfl⟩

variable [HostFp] {undef : U64}

theorem block_unretired (l : RunLoop) (undef : U64) (c : Cpu) : Unretired c (l.block undef c).2 := by
  unfold RunLoop.block
  split
  · exact jitExec_unretired undef c
  · exact refl_of Unretired c

theorem RunLoop.Traps.unretired {c d : Cpu} (h : l.Traps undef c d) : Unretired c d := by
  obtain ⟨-, e, he, -, rfl⟩ := h
  have htrap := trans_of Unretired (block_unretired l undef c) (stepBody_error he)
  exact ⟨htrap.cycle, htrap.error, htrap.halted, htrap.pending⟩

theorem RunLoop.Traps.attempt {d : Cpu} (h : l.Traps undef s.cpu d) (hawake : s.cpu.halted = false) :
    l.attempt undef s = .again { s with cpu := d } := by
  obtain ⟨hblock, e, he, hhalt, rfl⟩ := h
  have hrun : (l.block undef s.cpu).2.halted = false := (block_unretired l undef s.cpu).halted.trans hawake
  have hstep : rv64Step (l.block undef s.cpu).2 = e := by
    unfold rv64Step
    rw [if_neg (by simp [hrun]), he]
    rfl
  unfold RunLoop.attempt
  dsimp only
  rw [hblock, if_neg (by simp), hstep, hhalt, if_neg (by simp)]

/-- **An instruction that is tried counts cycles, or traps.** -/
theorem attempt_cases {v : RunState} (hawake : s.cpu.halted = false) (h : l.attempt undef s = .again v) :
    ∃ d, v = { s with cpu := d } ∧ (CountsOn s.cpu d ∨ l.Traps undef s.cpu d) := by
  have hblock := block_unretired l undef s.cpu
  unfold RunLoop.attempt at h
  dsimp only at h
  by_cases hran : (0 : U32).slt (l.block undef s.cpu).1 = true
  · rw [if_pos hran] at h
    cases h
    obtain ⟨hext, hpos, hlt⟩ := toNat_signExtend_of_slt hran
    exact ⟨_, rfl, .inl ⟨_, hext ▸ hpos, hext ▸ hlt, by rw [← hblock.cycle]⟩⟩
  · rw [if_neg hran] at h
    have hstep : rv64Step (l.block undef s.cpu).2 = final (stepBody (l.block undef s.cpu).2) := by
      unfold rv64Step
      rw [if_neg (by simp [hblock.halted.trans hawake])]
    rw [hstep] at h
    split at h
    next => cases h
    next hhalt =>
      cases h
      refine ⟨_, rfl, ?_⟩
      cases hbody : stepBody (l.block undef s.cpu).2 with
      | ok u e => exact .inl ⟨1, by decide, by decide, (stepBody_ok hbody).1.trans (by rw [hblock.cycle])⟩
      | error u e =>
        rw [hbody] at hhalt
        exact .inr ⟨Bool.eq_false_iff.2 hran, e, hbody, Bool.eq_false_iff.2 hhalt, rfl⟩

/-- What a pass that goes round again does. -/
inductive RunLoop.Turn (l : RunLoop) (h : HostInput) (s v : RunState) : Prop
  | counts (hgo : s.cpu.cycle < s.max_cycles) (hcount : CountsOn s.cpu v.cpu)
  | wakes (hwfi : s.in_wfi = true) (hawake : s.cpu.halted = false) (heq : v = { s with in_wfi := false })
  | traps (htrap : l.TrapPass h s v) (hrun : v.in_wfi = false) (hawake : v.cpu.halted = false)
      (hcycle : v.cpu.cycle = s.cpu.cycle)
  | unhalts (hrun : s.in_wfi = false) (hhalted : s.cpu.halted = true) (hnext : v.in_wfi = false)
      (hawake : v.cpu.halted = false) (hcycle : v.cpu.cycle = s.cpu.cycle)
  | waits (hrun : s.in_wfi = false) (hhalted : s.cpu.halted = true) (hwfi : v.in_wfi = true) (hwait : v.cpu.halted = true)
      (hcycle : v.cpu.cycle = s.cpu.cycle)

/-- **Every pass counts cycles, or traps, or wakes or halts the loop.** -/
theorem pass_turn {h : HostInput} {v : RunState} (hl : l.Paced) (hp : l.pass h s = .again v) :
    v.max_cycles = s.max_cycles ∧ l.Turn h s v := by
  unfold RunLoop.pass at hp
  split at hp
  next hwfi =>
    unfold RunLoop.wfi at hp
    split at hp
    next hwait =>
      obtain ⟨hcount, -⟩ := checkInterrupts_counted { s.cpu.setMtime h.mtime with cycle := s.cpu.cycle + l.check_interval }
      have hround : CountsOn s.cpu (checkInterrupts
          { s.cpu.setMtime h.mtime with cycle := s.cpu.cycle + l.check_interval }).1 :=
        ⟨l.check_interval, hl.1, by have := hl.2; omega, hcount.1⟩
      dsimp only at hp
      split at hp <;> (cases hp; exact ⟨rfl, .counts hwait.2 hround⟩)
    next hstay =>
      split at hp
      · cases hp
      next hawake =>
        cases hp
        exact ⟨rfl, .wakes hwfi (by simpa using hawake) rfl⟩
  next hwfi =>
    have hrun : s.in_wfi = false := by simpa using hwfi
    split at hp
    case isFalse => cases hp
    next hgo =>
      obtain ⟨d, x, hpoll, hcount, htaken, huntaken⟩ := poll_spec l h.mtime s
      dsimp only at hp
      cases htake : (l.poll h.mtime s).2 with
      | true =>
        rw [htake, if_pos rfl] at hp
        cases hp
        have htrap := RunLoop.TrapPass.interrupt hrun hgo.1 hgo.2 htake
        rw [hpoll] at htrap ⊢
        exact ⟨rfl, .traps htrap hrun (htaken htake) hcount.1⟩
      | false =>
        rw [htake, if_neg (by simp)] at hp
        have hhalt : d.halted = s.cpu.halted := huntaken htake
        rw [hpoll] at hp
        dsimp only at hp
        split at hp
        next hhalted =>
          have hslept : s.cpu.halted = true := by rw [← hhalt, hhalted]
          split at hp
          · cases hp
            exact ⟨rfl, .unhalts hrun hslept hrun rfl hcount.1⟩
          · cases hp
            exact ⟨rfl, .waits hrun hslept rfl hhalted hcount.1⟩
        next hhalted =>
          have hawake : d.halted = false := by simpa using hhalted
          have hstep : l.AboutToStep h.mtime s d := ⟨hrun, hgo.1, hgo.2, htake, by rw [hpoll], hawake⟩
          obtain ⟨e, rfl, ⟨n, hpos, hlt, hn⟩ | htrap⟩ :=
            attempt_cases (s := { s with cpu := d, next_check_cycle := x }) hawake hp
          · exact ⟨rfl, .counts hgo.1 ⟨n, hpos, hlt, hn.trans (by rw [← hcount.1])⟩⟩
          · have hkept := htrap.unretired
            have hpass := RunLoop.TrapPass.insn hstep htrap
            rw [hpoll] at hpass
            exact ⟨rfl, .traps hpass hrun (hkept.halted.trans hawake) (hkept.cycle.trans hcount.1)⟩

theorem RunLoop.AboutToStep.pass {h : HostInput} {c : Cpu} (hs : l.AboutToStep h.mtime s c) :
    l.pass h s = l.attempt h.undef (l.poll h.mtime s).1 := by
  have hawake : (l.poll h.mtime s).1.cpu.halted = false := by rw [hs.cpu, hs.awake]
  unfold RunLoop.pass
  rw [if_neg (by simp [hs.running]), if_pos ⟨hs.budget, hs.ok⟩]
  dsimp only
  rw [if_neg (by simp [hs.untaken]), if_neg (by simp [hawake])]

theorem RunLoop.TrapPass.running {h : HostInput} {v : RunState} (ht : l.TrapPass h s v) : s.in_wfi = false := by
  cases ht with
  | interrupt hrun => exact hrun
  | insn hstep => exact hstep.running

/-- A pass that ends in a trap goes round again. -/
theorem RunLoop.TrapPass.pass {h : HostInput} {v : RunState} (ht : l.TrapPass h s v) : l.pass h s = .again v := by
  cases ht with
  | interrupt hrun hbudget hok htaken =>
    unfold RunLoop.pass
    rw [if_neg (by simp [hrun]), if_pos ⟨hbudget, hok⟩]
    dsimp only
    rw [if_pos htaken]
  | insn hstep htrap =>
    rw [hstep.pass]
    rw [← hstep.cpu] at htrap
    exact htrap.attempt (by rw [hstep.cpu, hstep.awake])

/-- A pass of an awake loop that counts nothing ends in a trap, and leaves the loop awake. -/
theorem RunLoop.Turn.awake {h : HostInput} {v : RunState} (ht : l.Turn h s v) (hrun : s.in_wfi = false)
    (hawake : s.cpu.halted = false) (hsame : v.cpu.cycle = s.cpu.cycle) :
    l.TrapPass h s v ∧ v.in_wfi = false ∧ v.cpu.halted = false := by
  cases ht with
  | counts _ hcount => exact absurd hsame hcount.ne
  | wakes hwfi => rw [hrun] at hwfi; cases hwfi
  | traps htrap hnext hstays => exact ⟨htrap, hnext, hstays⟩
  | unhalts _ hhalted => rw [hawake] at hhalted; cases hhalted
  | waits _ hhalted => rw [hawake] at hhalted; cases hhalted

/-- **A loop that stops counting is awake after one pass.** -/
theorem awake_of_stall {h : Nat → HostInput} {f : Nat → RunState} (hturn : ∀ j, l.Turn (h j) (f j) (f (j + 1)))
    (hsame : ∀ j, (f (j + 1)).cpu.cycle = (f j).cpu.cycle) : (f 1).in_wfi = false ∧ (f 1).cpu.halted = false := by
  have hnocount : ∀ j, ¬ CountsOn (f j).cpu (f (j + 1)).cpu := fun j hcount => hcount.ne (hsame j)
  cases hturn 0 with
  | counts _ hcount => exact absurd hcount (hnocount 0)
  | wakes _ hawake heq => rw [heq]; exact ⟨rfl, hawake⟩
  | traps _ hrun hawake => exact ⟨hrun, hawake⟩
  | unhalts _ _ hrun hawake => exact ⟨hrun, hawake⟩
  | waits _ _ hwfi hwait =>
    -- the loop that waits in WFI counts its rounds
    cases hturn 1 with
    | counts _ hcount => exact absurd hcount (hnocount 1)
    | wakes _ hawake => rw [hwait] at hawake; cases hawake
    | traps htrap => have hr := htrap.running; rw [hwfi] at hr; cases hr
    | unhalts hr => rw [hwfi] at hr; cases hr
    | waits hr => rw [hwfi] at hr; cases hr

/-- **A storm goes on pass after pass.** -/
theorem not_returns_of_storm {h : Nat → HostInput} {k : Nat} {t : RunState} (ht : after l.pass h s k = .again t)
    (hstorm : l.TrapStorm (fun j => h (k + j)) t) : ¬ Returns l.pass h s := by
  obtain ⟨f, rfl, hf⟩ := hstorm
  exact not_returns_of_chain ht fun j => (hf j).pass

/-- **A loop exits exactly when it comes to no storm of traps and its counter stops wrapping.** -/
theorem returns_iff (hl : l.Paced) (h : Nat → HostInput) (s : RunState) :
    Returns l.pass h s ↔ l.StormFree h s ∧ ¬ l.WrapsForEver h s := by
  constructor
  · intro hret
    refine ⟨fun k t ht hstorm => not_returns_of_storm ht hstorm hret, fun hwraps => ?_⟩
    obtain ⟨n, r, hn⟩ := hret
    obtain ⟨k, t, hk, ht, -⟩ := hwraps n
    have hlate := after_le_of_exit hn (k - n)
    rw [show n + (k - n) = k by omega, ht] at hlate
    cases hlate
  · rintro ⟨hfree, hwraps⟩
    by_contra hno
    obtain ⟨n, hn⟩ := not_forall.1 hwraps
    have hup : ∀ k t v, n ≤ k → after l.pass h s k = .again t → l.pass (h k) t = .again v →
        t.cpu.cycle.toNat ≤ v.cpu.cycle.toNat := by
      intro k t v hk ht hv
      by_contra hfall
      exact hn ⟨k, t, hk, ht, v, hv, Nat.lt_of_not_le hfall⟩
    obtain ⟨f, m, hreach, hpass, hsame⟩ := stalls_of_not_returns hno hup fun u => Nat.le_of_lt u.cpu.cycle.isLt
    have hturn : ∀ j, l.Turn (h (m + j)) (f j) (f (j + 1)) := fun j => (pass_turn hl (hpass j)).2
    have hcycle : ∀ j, (f (j + 1)).cpu.cycle = (f j).cpu.cycle := fun j => BitVec.eq_of_toNat_eq (hsame j)
    have hall : ∀ j, (f (j + 1)).in_wfi = false ∧ (f (j + 1)).cpu.halted = false := by
      intro j
      induction j with
      | zero => exact awake_of_stall hturn hcycle
      | succ j ih => exact ((hturn (j + 1)).awake ih.1 ih.2 (hcycle _)).2
    refine hfree (m + 1) (f 1) (hreach 1) ⟨fun j => f (j + 1), rfl, fun j => ?_⟩
    show l.TrapPass (h (m + 1 + j)) (f (j + 1)) (f (j + 1 + 1))
    rw [show m + 1 + j = m + (j + 1) by omega]
    exact ((hturn (j + 1)).awake (hall j).1 (hall j).2 (hcycle _)).1

end Pass

/-! ## Calls that never return -/

section Hung

variable [NetDevice]

theorem poll_hungKept (l : RunLoop) (mtime : U64) (s : RunState) : HungKept s.cpu (l.poll mtime s).1.cpu := by
  unfold RunLoop.poll
  dsimp only
  split
  next =>
    refine trans_of HungKept ?_ (checkInterrupts_hungKept _)
    split <;> split <;> exact Nat.le_refl _
  next => exact Nat.le_refl _

variable [HostFp]

theorem block_hungKept (l : RunLoop) (undef : U64) (c : Cpu) : HungKept c (l.block undef c).2 := by
  unfold RunLoop.block
  split
  · exact jitExec_hungKept undef c
  · exact Nat.le_refl _

theorem pass_hungKept (l : RunLoop) (h : HostInput) (s : RunState) : HungKept s.cpu (passCpu (l.pass h s)) := by
  unfold RunLoop.pass
  split
  · unfold RunLoop.wfi
    split
    · have hround := checkInterrupts_hungKept { s.cpu.setMtime h.mtime with cycle := s.cpu.cycle + l.check_interval }
      dsimp only
      split <;> exact hround
    · split <;> exact Nat.le_refl _
  · split
    · have hpoll := poll_hungKept l h.mtime s
      dsimp only
      split
      · exact hpoll
      split
      · split <;> exact hpoll
      have hblock := trans_of HungKept hpoll (block_hungKept l h.undef _)
      unfold RunLoop.attempt
      dsimp only
      split
      · exact hblock
      · have hstep := trans_of HungKept hblock (rv64Step_hungKept _)
        split <;> exact hstep
    · exact Nat.le_refl _

theorem after_hung_mono (l : RunLoop) (h : Nat → HostInput) (s : RunState) :
    Monotone fun k => (passCpu (after l.pass h s k)).netHung := by
  refine monotone_nat_of_le_succ fun k => ?_
  cases hk : after l.pass h s k with
  | again t =>
    rw [after_succ hk]
    exact pass_hungKept l (h k) t
  | exit r => rw [after_le_of_exit hk 1]

end Hung

/-! ## The two functions -/

/-- The loop exits, and every call of the network device on the way returns. -/
def RunReturns (run : Nat → RunPass) : Prop := ∃ k r, run k = .exit r ∧ r.cpu.netHung = (passCpu (run 0)).netHung

theorem plainLoop_paced : plainLoop.Paced := ⟨by decide, by decide⟩

theorem jitLoop_paced : jitLoop.Paced := ⟨by decide, by decide⟩

theorem runLoop_paced (c : Cpu) : (runLoop c).Paced := by
  unfold runLoop
  split
  · exact jitLoop_paced
  · exact plainLoop_paced

section Returns

variable [NetDevice] [HostFp] {l : RunLoop}

theorem runReturns_iff (hl : l.Paced) (h : Nat → HostInput) (s : RunState) :
    RunReturns (after l.pass h s) ↔ l.Free h s := by
  have hmono := after_hung_mono l h s
  constructor
  · rintro ⟨k, r, hk, hsame⟩
    obtain ⟨hstorms, hwraps⟩ := (returns_iff hl h s).1 ⟨k, r, hk⟩
    refine ⟨fun j t ht hhang => ?_, hstorms, hwraps⟩
    have hjk : j < k := by
      by_contra hle
      have hlate := after_le_of_exit hk (j - k)
      rw [show k + (j - k) = j by omega, ht] at hlate
      cases hlate
    have hbefore := hmono (Nat.zero_le j)
    have hafter := hmono (show j + 1 ≤ k from hjk)
    dsimp only at hbefore hafter
    rw [ht] at hbefore
    rw [after_succ ht, hk] at hafter
    have hgrows : t.cpu.netHung < (passCpu (l.pass (h j) t)).netHung := hhang
    have hstart : (passCpu (after l.pass h s 0)).netHung ≤ t.cpu.netHung := hbefore
    have hend : (passCpu (l.pass (h j) t)).netHung ≤ r.cpu.netHung := hafter
    omega
  · intro hfree
    obtain ⟨k, r, hk⟩ := (returns_iff hl h s).2 ⟨hfree.storms, hfree.wraps⟩
    have hall : ∀ j, (passCpu (after l.pass h s j)).netHung = (passCpu (after l.pass h s 0)).netHung := by
      intro j
      induction j with
      | zero => rfl
      | succ j ih =>
        rw [← ih]
        cases hj : after l.pass h s j with
        | again t =>
          rw [after_succ hj]
          exact Nat.le_antisymm (Nat.le_of_not_lt (hfree.hangs j t hj)) (pass_hungKept l (h j) t)
        | exit r => rw [after_le_of_exit hj 1]
    refine ⟨k, r, hk, ?_⟩
    rw [← hall k, hk]
    rfl

/-- **A budget that ends well below the top of the counter never carries it past the top.** -/
theorem not_wrapsForEver (hl : l.Paced) (h : Nat → HostInput) {n : U64} {c : Cpu}
    (hfits : c.cycle.toNat + n.toNat + 2 ^ 31 ≤ 2 ^ 64) : ¬ l.WrapsForEver h (l.enter n c) := by
  intro hwraps
  obtain ⟨k, t, -, ht, v, hv, hfall⟩ := hwraps 0
  have hmax : t.max_cycles = c.cycle + n :=
    after_invariant (P := fun u => u.max_cycles = c.cycle + n) (fun i u v hu hp => (pass_turn hl hp).1.trans hu) rfl ht
  have hlt : v.cpu.cycle.toNat < t.cpu.cycle.toNat := hfall
  have hstill : v.cpu.cycle ≠ t.cpu.cycle := fun heq => by rw [heq] at hlt; omega
  cases (pass_turn hl hv).2 with
  | counts hgo hcount =>
    obtain ⟨m, -, hm, heq⟩ := hcount
    have hroom : t.cpu.cycle.toNat < (c.cycle + n).toNat := hmax ▸ hgo
    rw [toNat_add_of_room (by omega)] at hroom
    rw [heq, toNat_add_of_room (by omega)] at hlt
    omega
  | wakes _ _ heq => exact hstill (by rw [heq])
  | traps _ _ _ heq => exact hstill heq
  | unhalts _ _ _ _ heq => exact hstill heq
  | waits _ _ _ _ heq => exact hstill heq

end Returns

section Theorem

variable [NetHosts] [HostFp]

local instance runNet : NetDevice := NetHosts.device

/-- **The run loops return exactly when nothing keeps them**: no call of the network device that does not return, no storm
of traps, and no counter that is carried past its top for ever. -/
theorem run_returns_iff (h : Nat → HostInput) (n : U64) (c : Cpu) :
    (RunReturns (rv64Run h n c) ↔ (runLoop c).Free h ((runLoop c).enter n c)) ∧
      (RunReturns (rv64RunJit h n c) ↔ jitLoop.Free h (jitLoop.enter n c)) :=
  ⟨runReturns_iff (runLoop_paced c) h _, runReturns_iff jitLoop_paced h _⟩

end Theorem

section Host

local instance loopHosts : NetHosts := ⟨fun _ => NetHost.quiet 0⟩
local instance loopNet : NetDevice := NetHosts.device
local instance loopFp : HostFp := HostFp.zero

/-- A reset machine without its JIT. -/
def interpreted : Cpu := { rv64Init (fun _ => 0) 0x1000 with jit := none }

/-- A step of empty memory, which reads as ADDI, spends a budget of 1, also at the top of the counter. -/
example : RunReturns (rv64Run (fun _ => ⟨0, 0⟩) 1 { interpreted with cycle := 0xFFFFFFFFFFFFFFFE }) := by
  obtain ⟨r, hr⟩ := exists_of_isExit (show (rv64Run (fun _ => ⟨0, 0⟩) 1
    { interpreted with cycle := 0xFFFFFFFFFFFFFFFE } 2).isExit = true by decide +kernel)
  have hhung : (passCpu (rv64Run (fun _ => ⟨0, 0⟩) 1 { interpreted with cycle := 0xFFFFFFFFFFFFFFFE } 2)).netHung = 0 := by
    decide +kernel
  rw [hr] at hhung
  exact ⟨2, r, hr, hhung⟩

end Host

/-! ## A handler that traps -/

/-- A RAM of ones and a trap vector into it: the handler's first instruction is illegal. -/
def onesHandler : Cpu :=
  let c := rv64Init (fun _ => 0xFF) 0x1000
  { c with csr := { c.csr with mtvec := ramBase } }

/-- What every trap of that machine leaves as it is. -/
structure Stuck (c : Cpu) : Prop where
  priv : c.priv = privM
  pc : c.pc = ramBase
  mtvec : c.csr.mtvec = ramBase
  tlb : c.tlb = .zero
  ram : c.bus.mem.ram = fun _ => 0xFF
  ram_size : c.ram_size = 0x1000
  awake : c.halted = false
  nobreak : c.dbg.break_active = false ∧ c.dbg.break_halt = false
  jit : ∃ j, c.jit = some j ∧ j.rt_max_block_insns = 0 ∧ (j.cache (cacheIndex ramBase)).host_code = none

theorem onesHandler_stuck : Stuck onesHandler :=
  ⟨rfl, rfl, rfl, rfl, rfl, rfl, rfl, ⟨rfl, rfl⟩, .init, rfl, rfl, rfl⟩

/-- The word it holds; seven ones are no opcode. -/
def onesWord : U32 := 0xFFFFFFFF

theorem emitWord_onesWord (disabled : BitVec 128) (pc : U64) : emitWord disabled onesWord pc = .unsupported [] := by
  have hword : isCompressed onesWord = false := by decide
  have hemit : emitInsn onesWord pc false = .unsupported [] := rfl
  unfold emitWord
  simp [hword, hemit]

section Stuck

variable [NetDevice] {c : Cpu}

theorem Stuck.load (h : Stuck c) : rv64CpuLoad ramBase 4 .exec c = .ok (onesWord.setWidth 64) c := by
  have hmiss : loadFast c ramBase 4 .exec = none := by
    unfold loadFast Cpu.tlbEntry
    rw [h.tlb]
    rfl
  have hram : inRam c.ram_size ramBase = true := by
    rw [h.ram_size]
    decide
  rw [rv64CpuLoad_machine h.priv hmiss (by decide) hram, h.ram]
  rfl

variable [HostFp]

theorem Stuck.jitExec (h : Stuck c) (undef : U64) : (jitExec undef c).1 = 0 ∧ Stuck (jitExec undef c).2 := by
  obtain ⟨j, hj, hmax, hcode⟩ := h.jit
  have hn : maxInsns j = 63 + 1 := by
    unfold maxInsns
    rw [hmax]
    rfl
  have hcompile : (compileLoop j.disabled_ops (maxInsns j) (.start ramBase) c) =
      ({ Compile.start ramBase with unsupported := true }, c) := by
    rw [hn]
    unfold compileLoop
    rw [show (Compile.start ramBase).pc = ramBase from rfl, h.load]
    dsimp only
    rw [show (BitVec.setWidth 32 (onesWord.setWidth 64)) = onesWord from rfl, emitWord_onesWord]
    rfl
  have hstored : ∀ b : JitBlock, b.guest_pc = ramBase → b.host_code = none → Stuck (storeBlock b c) := by
    intro b hb hnone
    refine ⟨h.priv, h.pc, h.mtvec, h.tlb, h.ram, h.ram_size, h.awake, h.nobreak,
      { j with cache := setAt j.cache (cacheIndex b.guest_pc) b }, ?_, hmax, ?_⟩
    · unfold storeBlock
      rw [hj]
      rfl
    · simp [setAt, hb, hnone]
  unfold PgLinux.jitExec
  rw [hj]
  dsimp only
  split
  · exact ⟨rfl, h⟩
  · have hlookup : (lookupBlock j c).1.host_code = none ∧ Stuck (lookupBlock j c).2 := by
      unfold lookupBlock
      dsimp only
      split
      · unfold jitCompileBlock
        rw [h.pc, hcompile]
        exact ⟨rfl, hstored _ rfl rfl⟩
      · rw [h.pc]
        exact ⟨hcode, h⟩
    rw [hlookup.1]
    exact ⟨rfl, hlookup.2⟩

theorem Stuck.block (h : Stuck c) (undef : U64) (l : RunLoop) : (l.block undef c).1 = 0 ∧ Stuck (l.block undef c).2 := by
  obtain ⟨hran, hstuck⟩ := h.jitExec undef
  unfold RunLoop.block
  split
  · dsimp only
    rw [hran]
    exact ⟨rfl, hstuck⟩
  · exact ⟨rfl, h⟩

/-- The instruction is illegal, and the handler is the instruction. -/
theorem Stuck.step (h : Stuck c) : ∃ e, stepBody c = .error () e ∧ Stuck e := by
  have hbreak : checkBreak c = c := by
    unfold checkBreak
    rw [h.nobreak.1]
    rfl
  have hfetch : fetchInsn c.pc (checkBreak c) = .ok onesWord c := by
    rw [hbreak, h.pc, fetchInsn_ok h.load]
    rfl
  have htrap : stepBody c = .error () (PgLinux.trap (logInsn onesWord c) excIllegalInsn (onesWord.setWidth 64)) := by
    rw [stepBody_eq, hfetch]
    dsimp only
    rw [afterFetch_insn (show expandInsn onesWord = pure onesWord from rfl)]
    rfl
  have hlog : Stuck ((logInsn onesWord c).logTrap excIllegalInsn (onesWord.setWidth 64)) :=
    ⟨h.priv, h.pc, h.mtvec, h.tlb, h.ram, h.ram_size, h.awake, h.nobreak, h.jit⟩
  refine ⟨_, htrap, ?_⟩
  unfold PgLinux.trap
  generalize (logInsn onesWord c).logTrap excIllegalInsn (onesWord.setWidth 64) = g at hlog
  have hmachine : trapToS g excIllegalInsn = false := by
    unfold trapToS
    rw [if_pos hlog.priv]
  dsimp only
  rw [hmachine, if_neg (by simp)]
  refine ⟨rfl, ?_, hlog.mtvec, hlog.tlb, hlog.ram, hlog.ram_size, hlog.awake, hlog.nobreak, hlog.jit⟩
  show trapVector g.csr.mtvec excIllegalInsn = ramBase
  rw [hlog.mtvec]
  decide

theorem Stuck.traps (h : Stuck c) (l : RunLoop) (undef : U64) : ∃ d, l.Traps undef c d ∧ Stuck d := by
  obtain ⟨hran, hblock⟩ := h.block undef l
  obtain ⟨e, he, hstuck⟩ := hblock.step
  refine ⟨e.clearHalt, ⟨by rw [hran]; rfl, e, he, ?_, rfl⟩, ?_⟩
  · rw [hstuck.nobreak.2, Bool.and_false]
  · exact ⟨hstuck.priv, hstuck.pc, hstuck.mtvec, hstuck.tlb, hstuck.ram, hstuck.ram_size, hstuck.awake, hstuck.nobreak,
      hstuck.jit⟩

/-- **Such a machine storms**: the timer is not due, and every pass runs the handler's first instruction. -/
theorem Stuck.storm {s : RunState} (h : Stuck s.cpu) {l : RunLoop} (hset : l.Settled s) (hrun : s.in_wfi = false)
    (hgo : s.cpu.cycle < s.max_cycles) (hok : s.cpu.error = false) (i : Nat → HostInput) : l.TrapStorm i s := by
  choose! next hnext using fun k d (hd : Stuck d) => hd.traps l (i k).undef
  let f : Nat → Cpu := fun k => Nat.rec s.cpu next k
  have hf : ∀ k, Stuck (f k) := by
    intro k
    induction k with
    | zero => exact h
    | succ k ih => exact (hnext k _ ih).2
  have hkept : ∀ k, Unretired s.cpu (f k) := by
    intro k
    induction k with
    | zero => exact refl_of Unretired _
    | succ k ih => exact trans_of Unretired ih (hnext k _ (hf k)).1.unretired
  refine ⟨fun k => { s with cpu := f k }, rfl, fun k => ?_⟩
  have hpoll : l.poll (i k).mtime { s with cpu := f k } = ({ s with cpu := f k }, false) := by
    refine RunLoop.Settled.poll ⟨?_, ?_⟩
    · show (f k).cycle < s.next_check_cycle
      rw [(hkept k).cycle]
      exact hset.1
    · show (l.checks_pending && (f k).pending_irq_check) = false
      rw [(hkept k).pending]
      exact hset.2
  have hstep : l.AboutToStep (i k).mtime { s with cpu := f k } (f k) := by
    refine ⟨hrun, ?_, (hkept k).error.trans hok, by rw [hpoll], by rw [hpoll], (hf k).awake⟩
    show (f k).cycle < s.max_cycles
    rw [(hkept k).cycle]
    exact hgo
  have hpass := RunLoop.TrapPass.insn hstep (hnext k _ (hf k)).1
  rw [hpoll] at hpass
  exact hpass

end Stuck

section Host

local instance stuckHosts : NetHosts := ⟨fun _ => NetHost.quiet 0⟩
local instance stuckNet : NetDevice := NetHosts.device
local instance stuckFp : HostFp := HostFp.zero

/-- **A guest whose trap handler traps holds the loop for ever, whatever its budget.** -/
theorem not_run_returns_onesHandler : ¬ ∀ (h : Nat → HostInput) (n : U64) (c : Cpu),
    RunReturns (rv64Run h n c) ∧ RunReturns (rv64RunJit h n c) := by
  intro hall
  have hsettled : jitLoop.Settled (jitLoop.enter 1 onesHandler) := ⟨by decide, rfl⟩
  have hstuck : Stuck (jitLoop.enter 1 onesHandler).cpu := onesHandler_stuck
  obtain ⟨k, r, hk, -⟩ := (hall (fun _ => ⟨0, 0⟩) 1 onesHandler).2
  exact not_returns_of_storm (k := 0) rfl (hstuck.storm hsettled rfl (by decide) rfl _) ⟨k, r, hk⟩

end Host

end PgLinux
