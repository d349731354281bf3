import PgLinux.SyscallTracer
import PgLinux.Lib.Runs
/-!
# TraceMixing — the one entry the tracer remembers

What `handle_entry` decides stands in two statics that all the processes share, so an exit stop is served by the most recent
entry stop of any of them.  Ghosts beside the tracer: what each process's open syscall was decided to return, and the most
recent entry stop.
-/
namespace PgLinux

/-! ## Open syscalls -/

structure Traced where
  tracer : Tracer
  asked : Pid → Option Decision
  latest : Option (Pid × Decision)

/-- The loop begins, over statics that an earlier command may have left. -/
def Traced.start (s : Tracer) : Traced := ⟨s, fun _ => none, none⟩

def Traced.forget (pid : Pid) (s : Traced) : Traced := { s with asked := setAt s.asked pid none }

/-- A process that asks to exit gets to no exit stop. -/
def Traced.ask (pid : Pid) (d : Decision) (s : Traced) : Traced :=
  { s with asked := setAt s.asked pid (if d = .exit then none else some d), latest := some (pid, d) }

/-- The ghosts, from what a stopped process brings. -/
def Traced.observeStop (pid : Pid) (sig event : U8) (ch : Stopped) (s : Traced) : Traced :=
  if event ≠ 0 then s
  else if sig = sigSyscall then
    match ch.op with
    | some .entry => s.ask pid (Tracer.entryDecision (ch.regs.getD s.tracer.regs) ch)
    | some .exit => s.forget pid
    | _ => s
  else if sig = sigSegv ∨ sig = sigBus then s.forget pid
  else s

def Traced.observe (s : Traced) (w : Waited) : Traced :=
  if s.tracer.running then
    match w with
    | .pid pid (.exited _) _ => s.forget pid
    | .pid pid (.signaled _) _ => s.forget pid
    | .pid pid (.stopped sig event) ch => s.observeStop pid sig event ch
    | _ => s
  else s

def Traced.round (root : Pid) (s : Traced) (w : Waited) : Traced :=
  { s.observe w with tracer := s.tracer.round root w }

/-! ## Mixed results -/

/-- A syscall-exit stop of a process that is there, with the registers `r`, after an entry that decided `d`. -/
structure Traced.ExitOf (s : Traced) (w : Waited) (pid : Pid) (r : Aarch64Regs) (d : Decision) : Prop where
  running : s.tracer.running = true
  stop : ∃ ch, w = .pid pid (.stopped sigSyscall 0) ch ∧ ch.op = some .exit ∧ ch.regs = some r
  asked : s.asked pid = some d

/-- The process has what its entry decided, and the others have what they had. -/
structure SyscallReturned (pid : Pid) (r : Aarch64Regs) (d : Decision) (s s' : Tracer) : Prop where
  own : s'.procs pid = some (d.returns r)
  others : ∀ q, q ≠ pid → s'.procs q = s.procs q

def Traced.Mixes (root : Pid) (s : Traced) (w : Waited) : Prop :=
  ∃ pid r d, s.ExitOf w pid r d ∧ ¬ SyscallReturned pid r d s.tracer (s.tracer.round root w)

/-- Another process has entered since, and what its entry decided gives `x0` another value. -/
def Traced.Overtaken (s : Traced) (w : Waited) : Prop :=
  ∃ pid r d q l, s.ExitOf w pid r d ∧ s.latest = some (q, l) ∧ q ≠ pid ∧ ¬ l.Agree d r

/-! ## What the statics remember -/

/-- Of every open syscall there was an entry, and it is the latest if the latest is of its process. -/
structure Traced.Entered (s : Traced) : Prop where
  some_latest : ∀ pid d, s.asked pid = some d → ∃ q l, s.latest = some (q, l)
  own : ∀ pid d l, s.asked pid = some d → s.latest = some (pid, l) → l = d

/-- The statics are those of the latest entry. -/
def Traced.Remembers (s : Traced) : Prop := ∀ q l, s.latest = some (q, l) → s.tracer.pending = l

section Ghosts

variable {s : Traced} {pid : Pid}

theorem Traced.forget_asked {q : Pid} {d : Decision} (h : (s.forget pid).asked q = some d) : s.asked q = some d := by
  by_cases hq : q = pid
  · simp [Traced.forget, hq, setAt_self] at h
  · simpa [Traced.forget, setAt_ne _ _ hq] using h

theorem Traced.Entered.forget (h : s.Entered) (pid : Pid) : (s.forget pid).Entered :=
  ⟨fun q d hq => h.some_latest q d (forget_asked hq), fun q d l hq => h.own q d l (forget_asked hq)⟩

theorem Traced.entered_ask (s : Traced) (pid : Pid) (d : Decision) : (s.ask pid d).Entered := by
  refine ⟨fun q d' _ => ⟨pid, d, rfl⟩, fun q d' l hasked hlatest => ?_⟩
  cases hlatest
  by_cases hexit : d = .exit
  · simp [Traced.ask, setAt_self, hexit] at hasked
  · simpa [Traced.ask, setAt_self, hexit] using hasked

theorem Traced.Entered.observeStop (h : s.Entered) (pid : Pid) (sig event : U8) (ch : Stopped) :
    (s.observeStop pid sig event ch).Entered := by
  unfold Traced.observeStop
  by_cases hevent : event ≠ 0
  · rwa [if_pos hevent]
  rw [if_neg hevent]
  by_cases hsyscall : sig = sigSyscall
  · rw [if_pos hsyscall]
    split
    · exact s.entered_ask pid _
    · exact h.forget pid
    · exact h
  rw [if_neg hsyscall]
  by_cases hcrash : sig = sigSegv ∨ sig = sigBus
  · rw [if_pos hcrash]
    exact h.forget pid
  · rwa [if_neg hcrash]

theorem Traced.Entered.observe (h : s.Entered) (w : Waited) : (s.observe w).Entered := by
  unfold Traced.observe
  split
  · split
    · exact h.forget _
    · exact h.forget _
    · exact h.observeStop _ _ _ _
    · exact h
  · exact h

end Ghosts

section Statics

variable {s : Traced}

theorem Traced.remembers_stop (h : s.Remembers) (root pid : Pid) (sig event : U8) (ch : Stopped) (q : Pid) (l : Decision)
    (hlatest : (s.observeStop pid sig event ch).latest = some (q, l)) :
    ({ s.tracer with procs := setAt s.tracer.procs pid ch.regs }.stoppedProcess root pid sig event ch).pending = l := by
  have hold : s.latest = some (q, l) → { s.tracer with procs := setAt s.tracer.procs pid ch.regs }.pending = l := h q l
  unfold Traced.observeStop at hlatest
  unfold Tracer.stoppedProcess
  by_cases hevent : event ≠ 0
  · rw [if_pos hevent] at hlatest ⊢
    split <;> simpa using hold hlatest
  rw [if_neg hevent] at hlatest ⊢
  by_cases hsyscall : sig = sigSyscall
  · rw [if_pos hsyscall] at hlatest ⊢
    unfold Tracer.syscallStop
    cases hop : ch.op with
    | none =>
      rw [hop] at hlatest
      exact hold hlatest
    | some op =>
      rw [hop] at hlatest
      cases op with
      | entry =>
        cases hlatest
        rw [Tracer.pending_syscallEntry]
        simp [Tracer.getRegs, setAt_self]
      | exit => simpa using hold hlatest
      | none => simpa using hold hlatest
      | seccomp => simpa using hold hlatest
  rw [if_neg hsyscall] at hlatest ⊢
  by_cases hcrash : sig = sigSegv ∨ sig = sigBus
  · rw [if_pos hcrash] at hlatest ⊢
    simpa using hold hlatest
  · rw [if_neg hcrash] at hlatest ⊢
    simpa using hold hlatest

theorem Traced.Remembers.round (h : s.Remembers) (root : Pid) (w : Waited) : (s.round root w).Remembers := by
  intro q l hlatest
  unfold Traced.round Traced.observe at hlatest
  unfold Traced.round Tracer.round
  by_cases hrun : s.tracer.running = true
  · simp only [if_pos hrun] at hlatest ⊢
    cases w with
    | failed => exact h q l hlatest
    | pid pid status ch =>
      cases status with
      | exited code =>
        dsimp only at hlatest ⊢
        split <;> exact h q l hlatest
      | signaled sig =>
        dsimp only at hlatest ⊢
        split <;> exact h q l hlatest
      | stopped sig event => exact s.remembers_stop h root pid sig event ch q l hlatest
      | other => exact h q l hlatest
  · simp only [if_neg hrun] at hlatest ⊢
    exact h q l hlatest

/-! ## Exit stops -/

theorem Traced.ExitOf.procs {w : Waited} {pid : Pid} {r : Aarch64Regs} {d : Decision} (h : s.ExitOf w pid r d) (root : Pid) :
    (s.tracer.round root w).procs = setAt s.tracer.procs pid (some (s.tracer.pending.returns r)) := by
  obtain ⟨hrun, ⟨ch, rfl, hop, hregs⟩, -⟩ := h
  unfold Tracer.round
  rw [if_pos hrun]
  unfold Tracer.stoppedProcess Tracer.syscallStop
  simp only [ne_eq, not_true_eq_false, if_false, if_true, hop, hregs]
  have hproc : setAt s.tracer.procs pid (some r) pid = some r := setAt_self _ _ _
  refine (Tracer.handleExit_procs (r := r) hproc ?_).trans ?_
  · simp [Tracer.getRegs, hproc]
  · exact setAt_setAt _ _ _ _

/-- **An exit stop gives its process what the statics stand for.** -/
theorem Traced.ExitOf.returned_iff {w : Waited} {pid : Pid} {r : Aarch64Regs} {d : Decision} (h : s.ExitOf w pid r d)
    (root : Pid) :
    SyscallReturned pid r d s.tracer (s.tracer.round root w) ↔ s.tracer.pending.Agree d r := by
  have hprocs := h.procs root
  rw [← Decision.returns_eq_iff]
  constructor
  · rintro ⟨hown, -⟩
    rw [hprocs, setAt_self] at hown
    exact Option.some.inj hown
  · intro heq
    refine ⟨?_, fun q hq => ?_⟩
    · rw [hprocs, setAt_self, heq]
    · rw [hprocs, setAt_ne _ _ hq]

theorem Traced.mixes_iff (root : Pid) (w : Waited) (hentered : s.Entered) (hs : s.Remembers) :
    s.Mixes root w ↔ s.Overtaken w := by
  constructor
  · rintro ⟨pid, r, d, hexit, hmixed⟩
    obtain ⟨q, l, hlatest⟩ := hentered.some_latest pid d hexit.asked
    rw [hexit.returned_iff, hs q l hlatest] at hmixed
    refine ⟨pid, r, d, q, l, hexit, hlatest, ?_, hmixed⟩
    rintro rfl
    exact hmixed (congrArg (fun d : Decision => d.ret (r.x 0)) (hentered.own q d l hexit.asked hlatest))
  · rintro ⟨pid, r, d, q, l, hexit, hlatest, -, hmixed⟩
    refine ⟨pid, r, d, hexit, ?_⟩
    rwa [hexit.returned_iff, hs q l hlatest]

theorem Traced.known_start (s : Tracer) : (Traced.start s).Entered ∧ (Traced.start s).Remembers := by
  refine ⟨⟨fun _ _ h => ?_, fun _ _ _ h => ?_⟩, fun _ _ h => ?_⟩ <;> cases h

theorem Traced.known_round (h : s.Entered ∧ s.Remembers) (root : Pid) (w : Waited) :
    (s.round root w).Entered ∧ (s.round root w).Remembers := by
  obtain ⟨hentered, hs⟩ := h
  have hobserve := hentered.observe w
  exact ⟨⟨hobserve.some_latest, hobserve.own⟩, hs.round root w⟩

theorem Traced.known_foldl (h : s.Entered ∧ s.Remembers) (root : Pid) (ws : List Waited) :
    (ws.foldl (Traced.round root) s).Entered ∧ (ws.foldl (Traced.round root) s).Remembers := by
  induction ws generalizing s with
  | nil => exact h
  | cons w ws ih => exact ih (known_round h root w)

end Statics

/-- **Every syscall returns what its own entry decided**, exactly when no exit stop is overtaken. -/
theorem syscallResults_iff (root : Pid) (s : Tracer) (ws : List Waited) :
    Runs.Avoids (Traced.round root) (Traced.Mixes root) (.start s) ws ↔
      Runs.Avoids (Traced.round root) Traced.Overtaken (.start s) ws := by
  refine Runs.avoids_iff_avoids (I := fun s => s.Entered ∧ s.Remembers) (V := fun _ _ => False) ?_ (Traced.known_start s)
    fun _ _ _ => id
  rintro s w hknown -
  exact ⟨Traced.known_round hknown root w, s.mixes_iff root w hknown.1 hknown.2⟩

/-! ## One process -/

theorem Traced.observeStop_latest (s : Traced) (pid : Pid) (sig event : U8) (ch : Stopped) :
    (s.observeStop pid sig event ch).latest = s.latest ∨ ∃ d, (s.observeStop pid sig event ch).latest = some (pid, d) := by
  unfold Traced.observeStop
  split
  · exact .inl rfl
  split
  · split
    · exact .inr ⟨_, rfl⟩
    · exact .inl rfl
    · exact .inl rfl
  · split <;> exact .inl rfl

/-- The latest entry changes at a stop, to one of the process that stopped. -/
theorem Traced.observe_latest (s : Traced) (w : Waited) :
    (s.observe w).latest = s.latest ∨
      ∃ pid status ch d, w = .pid pid status ch ∧ (s.observe w).latest = some (pid, d) := by
  unfold Traced.observe
  by_cases hrun : s.tracer.running = true
  · rw [if_pos hrun]
    cases w with
    | failed => exact .inl rfl
    | pid pid status ch =>
      cases status with
      | exited code => exact .inl rfl
      | signaled sig => exact .inl rfl
      | other => exact .inl rfl
      | stopped sig event =>
        rcases s.observeStop_latest pid sig event ch with hsame | ⟨d, hnew⟩
        · exact .inl hsame
        · exact .inr ⟨pid, _, ch, d, rfl, hnew⟩
  · rw [if_neg hrun]
    exact .inl rfl

/-- **While one process is traced, no exit stop is overtaken.** -/
theorem Traced.not_overtaken_alone (root p : Pid) (s : Tracer) (ws : List Waited)
    (h : ∀ pid status ch, Waited.pid pid status ch ∈ ws → pid = p) :
    Runs.Avoids (Traced.round root) Traced.Overtaken (.start s) ws := by
  have hnone : Runs.Avoids (Traced.round root) (fun _ w => ∃ pid status ch, w = .pid pid status ch ∧ pid ≠ p) (.start s) ws := by
    rintro pre w hpre ⟨pid, status, ch, rfl, hpid⟩
    exact hpid (h pid status ch (hpre.subset (by simp)))
  have halone : Runs.Along (Traced.round root) (fun s => ∀ q l, s.latest = some (q, l) → q = p) (.start s) ws := by
    refine Runs.along_of_avoids (fun s w hs hw q l hlatest => ?_) (fun q l hlatest => ?_) hnone
    · rcases s.observe_latest w with hsame | ⟨pid, status, ch, d, rfl, hnew⟩
      · exact hs q l (hsame.symm.trans hlatest)
      · cases hnew.symm.trans hlatest
        by_contra hq
        exact hw ⟨q, status, ch, rfl, hq⟩
    · cases hlatest
  rintro pre w hpre ⟨pid, r, d, q, l, ⟨-, ⟨ch, rfl, -, -⟩, -⟩, hlatest, hq, -⟩
  have hqp : q = p := halone pre ((List.prefix_append _ _).trans hpre) q l hlatest
  have hpid : pid = p := h pid (.stopped sigSyscall 0) ch (hpre.subset (by simp))
  exact hq (hqp.trans hpid.symm)

/-! ## Two processes -/

def haltedRegs (x0 x8 : U64) : Aarch64Regs := ⟨fun i => if i.val = 0 then x0 else if i.val = 8 then x8 else 0, 0, 0, 0⟩

def syscallAt (pid : Pid) (op : SyscallOp) (x0 x8 : U64) : Waited :=
  .pid pid (.stopped sigSyscall 0) ⟨some op, some (haltedRegs x0 x8), 0, fun _ _ _ => (0, fun _ => 0)⟩

/-- Process 1 waits in a `read` from its descriptor 0 while process 2 asks for its id. -/
def readAndGetpid : List Waited :=
  [syscallAt 1 .entry 0 Sys.read, syscallAt 2 .entry 0 Sys.getpid, syscallAt 2 .exit (-38) (-1)]

def readEnds : Waited := syscallAt 1 .exit 5 Sys.read

def twoProcesses : Traced := readAndGetpid.foldl (Traced.round 1) (.start (.blank (haltedRegs 0 0)))

/-- The 5 bytes that were read become the id of process 2. -/
theorem not_syscallResults_readAndGetpid :
    ¬ Runs.Avoids (Traced.round 1) (Traced.Mixes 1) (.start (.blank (haltedRegs 0 0))) (readAndGetpid ++ [readEnds]) := by
  intro h
  have hexit : twoProcesses.ExitOf readEnds 1 (haltedRegs 5 Sys.read) .passthrough := by
    refine ⟨by decide, ⟨_, rfl, rfl, rfl⟩, by decide⟩
  have hx0 : ((twoProcesses.tracer.round 1 readEnds).procs 1).map (fun r => r.x 0) = some 1 := by decide
  refine h readAndGetpid readEnds List.prefix_rfl ⟨1, _, _, hexit, ?_⟩
  rintro ⟨hown, -⟩
  have hkept : ((twoProcesses.tracer.round 1 readEnds).procs 1).map (fun r => r.x 0) = some 5 :=
    congrArg (Option.map fun r => r.x 0) hown
  cases hkept.symm.trans hx0

end PgLinux
