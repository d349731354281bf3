import PgLinux.Bus
/-!
# SyscallTracer — the ptrace loop of the host side (`pg_process.c`)

A round of the loop is what `waitpid` returns and what the ptrace calls of the round find.  What a traced process and the
host's kernel do between two stops is open: each stop brings the registers the process has there.  The text of the log
lines is left out.
-/
namespace PgLinux

abbrev Pid := U32

/-! ## Registers -/

instance neZeroRegs : NeZero (31 : Nat) := ⟨by decide⟩

structure Aarch64Regs where
  x : Fin 31 → U64
  sp : U64
  pc : U64
  pstate : U64

def Aarch64Regs.setX (r : Aarch64Regs) (i : Fin 31) (v : U64) : Aarch64Regs := { r with x := setAt r.x i v }

@[simp] theorem Aarch64Regs.setX_x (r : Aarch64Regs) (i : Fin 31) (v : U64) : (r.setX i v).x i = v := setAt_self _ _ _

@[simp] theorem Aarch64Regs.setX_self (r : Aarch64Regs) (i : Fin 31) : r.setX i (r.x i) = r := by
  simp [Aarch64Regs.setX, setAt_same]

/-! ## Syscall numbers -/

namespace Sys

def getcwd : U64 := 17
def dup3 : U64 := 24
def fcntl : U64 := 25
def ioctl : U64 := 29
def openat : U64 := 56
def close : U64 := 57
def pipe2 : U64 := 59
def read : U64 := 63
def write : U64 := 64
def writev : U64 := 66
def ppoll : U64 := 73
def readlinkat : U64 := 78
def newfstatat : U64 := 79
def fstat : U64 := 80
def exit : U64 := 93
def exit_group : U64 := 94
def set_tid_address : U64 := 96
def set_robust_list : U64 := 99
def clock_gettime : U64 := 113
def sched_getaffinity : U64 := 123
def sched_yield : U64 := 124
def sigaltstack : U64 := 132
def rt_sigaction : U64 := 134
def rt_sigprocmask : U64 := 135
def rt_sigreturn : U64 := 139
def uname : U64 := 160
def getpid : U64 := 172
def getppid : U64 := 173
def getuid : U64 := 174
def geteuid : U64 := 175
def getgid : U64 := 176
def getegid : U64 := 177
def gettid : U64 := 178
def brk : U64 := 214
def munmap : U64 := 215
def clone : U64 := 220
def execve : U64 := 221
def mmap : U64 := 222
def mprotect : U64 := 226
def madvise : U64 := 233
def wait4 : U64 := 260
def prlimit64 : U64 := 261
def getrandom : U64 := 278
def rseq : U64 := 293

/-- The first group of the `switch`. -/
def passthrough : List U64 :=
  [brk, mmap, munmap, mprotect, madvise, set_tid_address, set_robust_list, rt_sigaction, rt_sigprocmask, prlimit64, rseq,
    getrandom, clock_gettime, close, read, readlinkat, newfstatat, fstat, ioctl, fcntl, getcwd, openat, clone, execve, wait4,
    pipe2, dup3, ppoll, rt_sigreturn, sigaltstack, sched_getaffinity, sched_yield]

/-- The ID syscalls and what they return. -/
def idRetval (nr : U64) : Option U64 :=
  if nr = getpid then some 1
  else if nr = getppid then some 0
  else if nr = gettid then some 1
  else if nr = getuid then some 0
  else if nr = geteuid then some 0
  else if nr = getgid then some 0
  else if nr = getegid then some 0
  else none

end Sys

/-! ## A round of the loop -/

/-- What the macros make of a wait status. -/
inductive WaitStatus where
  | exited (status : U8)
  | signaled (sig : U8)
  | stopped (sig event : U8)
  | other

/-- `SIGTRAP | 0x80`. -/
def sigSyscall : U8 := 0x85
def sigSegv : U8 := 11
def sigBus : U8 := 7
def eventFork : U8 := 1
def eventVfork : U8 := 2
def eventClone : U8 := 3

inductive SyscallOp where
  | none | entry | exit | seccomp
deriving DecidableEq

/-- What a round finds of the process: `op` is none when `PTRACE_GET_SYSCALL_INFO` fails, `regs` when the process is gone.
`readv` gives the return value of the round's `k`-th `process_vm_readv` of a length at an address, and the local buffer
after it, written or not. -/
structure Stopped where
  op : Option SyscallOp
  regs : Option Aarch64Regs
  event_msg : U64
  readv : Nat → U64 → U64 → U64 × Mem

/-- What `waitpid` returns. -/
inductive Waited where
  | failed
  | pid (pid : Pid) (status : WaitStatus) (ch : Stopped)

/-! ## The tracer -/

inductive ScAction where
  | passthrough | handled | exit
deriving DecidableEq

/-- The statics, the locals of the loop, and what the tracer has done: `procs` is the registers of each process as it was
last resumed, `resumed` has the signals delivered, `written` the writes into memory of processes. -/
structure Tracer where
  entry_action : ScAction
  entry_nr : U64
  handled_retval : U64
  saved_x0 : U64
  saved_x1 : U64
  saved_x2 : U64
  regs : Aarch64Regs
  exit_code : U32
  running : Bool
  procs : Pid → Option Aarch64Regs
  resumed : List (Pid × U8)
  killed : List Pid
  written : List (Pid × U64 × List U8)
  console : List U8

namespace Tracer

/-- `get_regs`: of a process that is gone, `regs` keeps those of another. -/
def getRegs (pid : Pid) (s : Tracer) : Tracer := { s with regs := (s.procs pid).getD s.regs }

/-- `set_regs`, which fails for a process that is gone. -/
def setRegs (pid : Pid) (s : Tracer) : Tracer :=
  { s with procs := setAt s.procs pid ((s.procs pid).map fun _ => s.regs) }

/-- `ptrace(PTRACE_SYSCALL, pid, 0, sig)`. -/
def resume (pid : Pid) (sig : U8) (s : Tracer) : Tracer := { s with resumed := s.resumed ++ [(pid, sig)] }

/-- `kill(pid, SIGKILL)`, and the `waitpid` that reaps it. -/
def kill (pid : Pid) (s : Tracer) : Tracer :=
  { s with procs := setAt s.procs pid none, killed := s.killed ++ [pid] }

def breakWith (code : U32) (s : Tracer) : Tracer := { s with exit_code := code, running := false }

def consoleWrite (buf : Mem) (len : Nat) (s : Tracer) : Tracer :=
  { s with console := s.console ++ (List.range len).map fun i => buf (BitVec.ofNat 64 i) }

/-! ## Syscall entry -/

def isConsoleFd (x0 : U64) : Bool := x0.setWidth 32 == 1#32 || x0.setWidth 32 == 2#32

def consoleWriteCount (x2 : U64) : U64 := if 4096 < x2 then 4096 else x2

/-- `SYS_write` to the console. -/
def handleWrite (ch : Stopped) (s : Tracer) : Tracer :=
  let r := ch.readv 0 (s.regs.x 1) (consoleWriteCount (s.regs.x 2))
  if 0 < r.1.toInt then { s.consoleWrite r.2 r.1.toNat with handled_retval := r.1 }
  else { s with handled_retval := -14 }

/-- Entry `i` of the vector; `total` is in `handled_retval`. -/
def handleIovec (ch : Stopped) (iov_addr : U64) (s : Tracer) (i : Nat) : Tracer :=
  let iov_base := (ch.readv (3 * i) (iov_addr + BitVec.ofNat 64 (i * 16)) 8).2.read 0 8
  let iov_len := (ch.readv (3 * i + 1) (iov_addr + BitVec.ofNat 64 (i * 16) + 8) 8).2.read 0 8
  if 0 < iov_len ∧ iov_len ≤ 4096 then
    { s.consoleWrite (ch.readv (3 * i + 2) iov_base iov_len).2 iov_len.toNat with
      handled_retval := s.handled_retval + iov_len }
  else s

/-- `SYS_writev` to the console: at most 16 entries of the vector. -/
def handleWritev (ch : Stopped) (s : Tracer) : Tracer :=
  (List.range (min ((s.regs.x 2).setWidth 32).toInt.toNat 16)).foldl (handleIovec ch (s.regs.x 1)) { s with handled_retval := 0 }

/-- A member of `utsname`, whose 65 bytes are zero before the `strncpy`. -/
def utsField (field : String) : List U8 :=
  ((field.toList.take 64).map (fun ch : Char => BitVec.ofNat 8 ch.toNat) ++ List.replicate 65 0).take 65

def uts : List U8 :=
  ["Linux", "postgresql", "6.1.0-postgres", "LinuxSQL on PostgreSQL", "aarch64", "(none)"].flatMap utsField

/-- `SYS_uname`. -/
def handleUname (pid : Pid) (s : Tracer) : Tracer :=
  { s with written := s.written ++ [(pid, s.regs.x 0, uts)], handled_retval := 0 }

/-- The end of a handled entry: no syscall has the number -1. -/
def nullify (pid : Pid) (s : Tracer) : ScAction × Tracer :=
  (.handled, setRegs pid { s with regs := s.regs.setX 8 (-1) })

def handleEntry (pid : Pid) (ch : Stopped) (s : Tracer) : ScAction × Tracer :=
  let nr := s.regs.x 8
  let s := { s with entry_nr := nr, saved_x0 := s.regs.x 0, saved_x1 := s.regs.x 1, saved_x2 := s.regs.x 2 }
  if Sys.passthrough.contains nr then (.passthrough, s)
  else if nr = Sys.exit_group ∨ nr = Sys.exit then (.exit, { s with handled_retval := s.regs.x 0 })
  else if nr = Sys.write then
    if isConsoleFd (s.regs.x 0) then nullify pid (handleWrite ch s) else (.passthrough, s)
  else if nr = Sys.writev then
    if isConsoleFd (s.regs.x 0) then nullify pid (handleWritev ch s) else (.passthrough, s)
  else if nr = Sys.uname then nullify pid (handleUname pid s)
  else
    match Sys.idRetval nr with
    | some retval => nullify pid { s with handled_retval := retval }
    | none => (.passthrough, s)

/-! ## Syscall exit -/

def handleExit (pid : Pid) (s : Tracer) : Tracer :=
  if s.entry_action = .handled then setRegs pid { s with regs := s.regs.setX 0 s.handled_retval } else s

/-! ## The loop -/

/-- The end of a process by the tracer's hand: of the root, it ends the loop. -/
def killProcess (root pid : Pid) (code : U32) (s : Tracer) : Tracer :=
  if pid = root then (s.kill pid).breakWith code else s.kill pid

def syscallEntry (root pid : Pid) (ch : Stopped) (s : Tracer) : Tracer :=
  let r := handleEntry pid ch s
  let s := { r.2 with entry_action := r.1 }
  if r.1 = .exit then s.killProcess root pid (s.handled_retval.setWidth 32) else s.resume pid 0

/-- A stop with bit 7 set. -/
def syscallStop (root pid : Pid) (ch : Stopped) (s : Tracer) : Tracer :=
  match ch.op with
  | .none => s
  | some .entry => (s.getRegs pid).syscallEntry root pid ch
  | some .exit => ((s.getRegs pid).handleExit pid).resume pid 0
  | some _ => (s.getRegs pid).resume pid 0

def stoppedProcess (root pid : Pid) (sig event : U8) (ch : Stopped) (s : Tracer) : Tracer :=
  if event ≠ 0 then
    if event = eventClone ∨ event = eventFork ∨ event = eventVfork then (s.resume (ch.event_msg.setWidth 32) 0).resume pid 0
    else s.resume pid 0
  else if sig = sigSyscall then s.syscallStop root pid ch
  else if sig = sigSegv ∨ sig = sigBus then (s.getRegs pid).killProcess root pid (128 + sig.setWidth 32)
  else s.resume pid sig

/-- One turn of the `while (1)`. -/
def round (root : Pid) (s : Tracer) (w : Waited) : Tracer :=
  if s.running then
    match w with
    | .failed => { s with running := false }
    | .pid pid status ch =>
      match status with
      | .exited code =>
        let s := { s with procs := setAt s.procs pid none }
        if pid = root then s.breakWith (code.setWidth 32) else s
      | .signaled sig =>
        let s := { s with procs := setAt s.procs pid none }
        if pid = root then s.breakWith (128 + sig.setWidth 32) else s
      | .stopped sig event => { s with procs := setAt s.procs pid ch.regs }.stoppedProcess root pid sig event ch
      | .other => s
  else s

end Tracer

/-! ## What an entry decides -/

inductive Decision where
  | handled (retval : U64)
  | passthrough
  | exit
deriving DecidableEq

/-- `x0` after an exit stop that finds `x0`. -/
def Decision.ret : Decision → U64 → U64
  | .handled retval, _ => retval
  | .passthrough, x0 | .exit, x0 => x0

/-- The registers after an exit stop that finds `r`. -/
def Decision.returns : Decision → Aarch64Regs → Aarch64Regs
  | .handled retval, r => r.setX 0 retval
  | .passthrough, r | .exit, r => r

theorem Decision.returns_eq (d : Decision) (r : Aarch64Regs) : d.returns r = r.setX 0 (d.ret (r.x 0)) := by
  cases d <;> simp [returns, ret]

@[simp] theorem Decision.returns_x0 (d : Decision) (r : Aarch64Regs) : (d.returns r).x 0 = d.ret (r.x 0) := by
  simp [Decision.returns_eq]

/-- Two decisions give `x0` the same value after an exit stop that finds `r`. -/
def Decision.Agree (d d' : Decision) (r : Aarch64Regs) : Prop := d.ret (r.x 0) = d'.ret (r.x 0)

theorem Decision.returns_eq_iff {d d' : Decision} {r : Aarch64Regs} : d.returns r = d'.returns r ↔ d.Agree d' r := by
  unfold Decision.Agree
  constructor
  · intro h
    rw [← Decision.returns_x0, h, Decision.returns_x0]
  · intro h
    rw [Decision.returns_eq, h, ← Decision.returns_eq]

namespace Tracer

def decided (r : ScAction × Tracer) : Decision :=
  match r.1 with
  | .handled => .handled r.2.handled_retval
  | .passthrough => .passthrough
  | .exit => .exit

/-- What the statics stand for at an exit stop. -/
def pending (s : Tracer) : Decision := decided (s.entry_action, s)

def blank (r : Aarch64Regs) : Tracer := ⟨.passthrough, 0, 0, 0, 0, 0, r, -1, true, fun _ => none, [], [], [], []⟩

/-- What `handle_entry` decides from the registers and the memory of a process. -/
def entryDecision (r : Aarch64Regs) (ch : Stopped) : Decision := decided (handleEntry 0 ch (blank r))

section Decided

variable {s s' : Tracer} {ch : Stopped}

theorem handleWrite_retval (h : s.regs = s'.regs) : (handleWrite ch s).handled_retval = (handleWrite ch s').handled_retval := by
  unfold handleWrite
  rw [h]
  dsimp only
  split <;> rfl

theorem handleIovec_retval {iov_addr : U64} (h : s.handled_retval = s'.handled_retval) (i : Nat) :
    (handleIovec ch iov_addr s i).handled_retval = (handleIovec ch iov_addr s' i).handled_retval := by
  unfold handleIovec
  dsimp only
  split
  · exact congrArg (· + _) h
  · exact h

theorem foldl_handleIovec_retval {iov_addr : U64} (l : List Nat) (h : s.handled_retval = s'.handled_retval) :
    (l.foldl (handleIovec ch iov_addr) s).handled_retval = (l.foldl (handleIovec ch iov_addr) s').handled_retval := by
  induction l generalizing s s' with
  | nil => exact h
  | cons i l ih => exact ih (handleIovec_retval h i)

theorem handleWritev_retval (h : s.regs = s'.regs) :
    (handleWritev ch s).handled_retval = (handleWritev ch s').handled_retval := by
  unfold handleWritev
  rw [h]
  exact foldl_handleIovec_retval _ rfl

theorem decided_nullify (pid : Pid) (s : Tracer) : decided (nullify pid s) = .handled s.handled_retval := rfl

theorem decided_handleEntry_congr (pid pid' : Pid) (h : s.regs = s'.regs) :
    decided (handleEntry pid ch s) = decided (handleEntry pid' ch s') := by
  unfold handleEntry
  dsimp only
  rw [h]
  by_cases hpass : Sys.passthrough.contains (s'.regs.x 8) = true
  · rw [if_pos hpass, if_pos hpass]
    rfl
  rw [if_neg hpass, if_neg hpass]
  by_cases hexit : s'.regs.x 8 = Sys.exit_group ∨ s'.regs.x 8 = Sys.exit
  · rw [if_pos hexit, if_pos hexit]
    rfl
  rw [if_neg hexit, if_neg hexit]
  by_cases hwrite : s'.regs.x 8 = Sys.write
  · rw [if_pos hwrite, if_pos hwrite]
    split
    · rw [decided_nullify, decided_nullify]
      exact congrArg _ (handleWrite_retval rfl)
    · rfl
  rw [if_neg hwrite, if_neg hwrite]
  by_cases hwritev : s'.regs.x 8 = Sys.writev
  · rw [if_pos hwritev, if_pos hwritev]
    split
    · rw [decided_nullify, decided_nullify]
      exact congrArg _ (handleWritev_retval rfl)
    · rfl
  rw [if_neg hwritev, if_neg hwritev]
  by_cases huname : s'.regs.x 8 = Sys.uname
  · rw [if_pos huname, if_pos huname]
    rfl
  rw [if_neg huname, if_neg huname]
  cases Sys.idRetval (s'.regs.x 8) <;> rfl

/-- **An entry decides by the registers and the memory of its process alone**, whatever the statics hold. -/
theorem decided_handleEntry (pid : Pid) (ch : Stopped) (s : Tracer) :
    decided (handleEntry pid ch s) = entryDecision s.regs ch := decided_handleEntry_congr pid 0 rfl

end Decided

/-! ## Where the statics change -/

section Pending

variable (s : Tracer) (root pid : Pid)

@[simp] theorem pending_getRegs : (s.getRegs pid).pending = s.pending := rfl
@[simp] theorem pending_setRegs : (s.setRegs pid).pending = s.pending := rfl
@[simp] theorem pending_resume (sig : U8) : (s.resume pid sig).pending = s.pending := rfl
@[simp] theorem pending_kill : (s.kill pid).pending = s.pending := rfl
@[simp] theorem pending_breakWith (code : U32) : (s.breakWith code).pending = s.pending := rfl

@[simp] theorem pending_killProcess (code : U32) : (s.killProcess root pid code).pending = s.pending := by
  by_cases h : pid = root <;> simp [killProcess, h]

@[simp] theorem pending_handleExit : (s.handleExit pid).pending = s.pending := by
  unfold handleExit
  split <;> rfl

/-- **An entry stop leaves its decision in the statics.** -/
theorem pending_syscallEntry (ch : Stopped) : (s.syscallEntry root pid ch).pending = entryDecision s.regs ch := by
  rw [← decided_handleEntry pid ch s]
  unfold syscallEntry
  dsimp only
  split
  · rw [pending_killProcess]
    rfl
  · rfl

end Pending

/-! ## An exit stop -/

/-- **At an exit stop the process gets what the statics stand for**, and no other process gets anything. -/
theorem handleExit_procs {s : Tracer} {pid : Pid} {r : Aarch64Regs} (hproc : s.procs pid = some r) (hregs : s.regs = r) :
    (s.handleExit pid).procs = setAt s.procs pid (some (s.pending.returns r)) := by
  unfold handleExit
  cases haction : s.entry_action with
  | handled =>
    have hpending : s.pending = .handled s.handled_retval := by simp [pending, decided, haction]
    rw [if_pos rfl, hpending]
    simp [setRegs, hproc, hregs, Decision.returns]
  | passthrough =>
    have hpending : s.pending = .passthrough := by simp [pending, decided, haction]
    rw [if_neg (by decide), hpending]
    exact (setAt_same hproc).symm
  | exit =>
    have hpending : s.pending = .exit := by simp [pending, decided, haction]
    rw [if_neg (by decide), hpending]
    exact (setAt_same hproc).symm

end Tracer

end PgLinux
