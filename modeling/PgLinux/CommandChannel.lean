import PgLinux.ConsoleInput
import PgLinux.Lib.Runs
import Mathlib.Data.List.Range
/-!
# CommandChannel — client backends and the worker over the one slot of `SharedVMState`

A client writes its command over whatever the slot holds and polls until the slot is idle; the worker reads the command,
then the arguments, runs it, stores the result and marks the slot idle.  The text of a SEND goes through a buffer that its
client fills before it enters the call.  A client can be cancelled while it polls, and the worker can be terminated or die.
Submissions carry a number that only the ghost fields look at.  What a command does to the VM is left open: `exec` is any
function.
-/
namespace PgLinux

/-! ## Requests -/

inductive VmIPCCommand where
  | idle | boot | step | halt | save | send | watchpoint | breakpoint
deriving DecidableEq

/-- The calls of `ipc_send_and_wait` and, for the last two, `ipc_send_and_wait_ext`; `vm_send` and `vm_type` fill the input
buffer first. -/
inductive Request where
  | boot (vm_id : U64)
  | step (cycles : U64)
  | halt
  | send (call : InputCall) (t : PgText)
  | watchpoint (addr size : U64)
  | breakpoint (pc halt : U64)

def Request.cmd : Request → VmIPCCommand
  | .boot _ => .boot
  | .step _ => .step
  | .halt => .halt
  | .send .. => .send
  | .watchpoint .. => .watchpoint
  | .breakpoint .. => .breakpoint

def Request.arg : Request → U64
  | .boot v | .step v | .watchpoint v _ | .breakpoint v _ => v
  | .halt | .send .. => 0

def Request.arg_ext : Request → Option U64
  | .watchpoint _ v | .breakpoint _ v => some v
  | _ => none

/-! ## The input buffer -/

def Request.fill : Request → (Nat → U8) → Nat → U8
  | .send call t, b => call.fill b t.bytes
  | _, b => b

/-- What a call writes of its text: all but what does not fit, and the newline of a short text of `vm_send`. -/
def InputCall.written : InputCall → List U8 → List U8
  | .type, str => str.take 1023
  | .send, input => if input = [] then [] else if input.length < 1022 then withNewline input else input.take 1022

/-- The characters that the worker is to read. -/
def Request.input : Request → Option (List U8)
  | .send call t => some (call.written t.bytes)
  | _ => none

/-- The loop of the worker over the buffer, from character `i` on with `n` to go. -/
def inputFrom (buf : Nat → U8) : Nat → Nat → List U8
  | 0, _ => []
  | n + 1, i => if buf i = 0 then [] else buf i :: inputFrom buf n (i + 1)

/-- `strncpy` does not reach the byte that is to end a text of 1022 characters, and an older text has left one there. -/
def Request.Stale (b : Nat → U8) : Request → Prop
  | .send .send t => 1022 ≤ t.bytes.length ∧ b 1022 ≠ 0
  | _ => False

theorem inputFrom_string {buf : Nat → U8} {bs : List U8} {n k : Nat} (h : StringAt buf k bs) (hn : bs.length < n) :
    inputFrom buf n k = bs := by
  induction bs generalizing n k with
  | nil =>
    obtain ⟨n, rfl⟩ := Nat.exists_eq_succ_of_ne_zero (Nat.ne_of_gt hn)
    exact if_pos h
  | cons b bs ih =>
    obtain ⟨hb, hnul, hrest⟩ := h
    rw [List.length_cons] at hn
    obtain ⟨n, rfl⟩ : ∃ m, n = m + 1 := ⟨n - 1, by omega⟩
    unfold inputFrom
    rw [hb, if_neg hnul, ih hrest (by omega)]

theorem written_length (call : InputCall) (bs : List U8) : (call.written bs).length < 1024 := by
  cases call with
  | type => exact Nat.lt_of_le_of_lt (List.length_take_le 1023 bs) (by omega)
  | send =>
    unfold InputCall.written withNewline
    dsimp only
    split
    · exact Nat.succ_pos _
    · split
      · split
        · omega
        · rw [List.length_append, List.length_singleton]
          omega
      · exact Nat.lt_of_le_of_lt (List.length_take_le 1022 bs) (by omega)

theorem fill_string {call : InputCall} {t : PgText} {b : Nat → U8} (hstale : ¬ (Request.send call t).Stale b) :
    StringAt (call.fill b t.bytes) 0 (call.written t.bytes) := by
  cases call with
  | type => exact vmTypeBuf_string b t
  | send =>
    unfold InputCall.written
    dsimp only
    split
    next hnil =>
      show StringAt (vmSendBuf b t.bytes) 0 []
      rw [hnil]
      exact vmSendBuf_empty b
    next hne =>
      split
      next hlt => exact vmSendBuf_string b t hne hlt
      next hlong =>
        obtain ⟨rest, -, hrest, hstring⟩ := vmSendBuf_long b t (by omega)
        rw [hrest (by_contra fun hb => hstale ⟨by omega, hb⟩), List.append_nil] at hstring
        exact hstring

/-- **The worker reads what the client wrote**, unless an older byte follows a long text. -/
theorem Request.fill_input {r : Request} {b : Nat → U8} (hstale : ¬ r.Stale b) {x : List U8} (hx : r.input = some x) :
    inputFrom (r.fill b) 1024 0 = x := by
  cases r with
  | send call t =>
    cases hx
    exact inputFrom_string (fill_string hstale) (written_length call t.bytes)
  | boot | step | halt | watchpoint | breakpoint => cases hx

/-! ## Parties -/

/-- What a command writes of `cmd_result`, `cmd_return` and `error_msg`. -/
structure Reply where
  result : Option Int
  ret : Option U64
  msg : Option String

/-- What a command, its two arguments and the input buffer do to the VM, and what they write back. -/
abbrev CommandExec (V : Type) := VmIPCCommand → U64 → U64 → List U8 → V → V × Reply

/-- The command part of `SharedVMState`; `ticket` is the submission that wrote it last, a ghost. -/
structure Slot (ι : Type) where
  worker_pid : Int
  worker_ready : Bool
  shutdown_requested : Bool
  cmd : VmIPCCommand
  cmd_arg : U64
  cmd_arg_ext : U64
  cmd_result : Int
  cmd_return : U64
  error_msg : String
  input_buf : Nat → U8
  client_latch : Option ι
  ticket : Nat

/-- Where the worker stands in its loop, with its local `cmd` and the ghost of its submission. -/
inductive WorkerAt where
  | top
  | picked (cmd : VmIPCCommand) (ticket : Nat)
  | loaded (cmd : VmIPCCommand) (ticket : Nat) (arg : U64)
  | ran (cmd : VmIPCCommand) (ticket : Nat) (reply : Reply)
  | stored (cmd : VmIPCCommand) (ticket : Nat)
  | asleep
  | leaving
  | gone
  | dead

/-- Where a client stands in a call. -/
inductive ClientAt where
  | outside
  | writing (r : Request)
  | written (r : Request)
  | calling (r : Request)
  | waiting (ticket : Nat)
  | done (ticket : Nat)

structure Submission (ι : Type) where
  client : ι
  request : Request

structure Execution where
  ticket : Nat
  cmd : VmIPCCommand
  arg : U64
  arg_ext : U64
  input : List U8
  reply : Reply

structure Return where
  ticket : Nat
  cmd_result : Int
  cmd_return : U64
  error_msg : String

/-- The slot, the parties, and the ghost history. -/
structure Channel (ι V : Type) where
  slot : Slot ι
  vm : V
  worker : WorkerAt
  got_sigterm : Bool
  clients : ι → ClientAt
  submissions : List (Submission ι)
  executions : List Execution
  finished : List Nat
  returns : List Return

/-- `write` and `enter` are the two moves of `vm_send` and `vm_type` before the call; `interrupt` is an error that
`CHECK_FOR_INTERRUPTS` raises in a client, and `crash` any end of the worker but that of its loop. -/
inductive ChannelEvent (ι : Type) where
  | call (i : ι) (r : Request)
  | write (i : ι)
  | enter (i : ι)
  | submit (i : ι)
  | poll (i : ι)
  | interrupt (i : ι)
  | ret (i : ι)
  | work
  | sigterm
  | crash

/-! ## Moves -/

section Moves

variable {ι V : Type} [DecidableEq ι] (exec : CommandExec V)

def Slot.input (sl : Slot ι) : List U8 := inputFrom sl.input_buf 1024 0

/-- The first section under the lock of a call. -/
def Slot.submit (sl : Slot ι) (i : ι) (r : Request) (ticket : Nat) : Slot ι :=
  { sl with
    cmd := r.cmd
    cmd_arg := r.arg
    cmd_arg_ext := r.arg_ext.getD sl.cmd_arg_ext
    client_latch := some i
    cmd_result := 0
    ticket := ticket }

def Slot.store (sl : Slot ι) (reply : Reply) : Slot ι :=
  { sl with
    cmd_result := reply.result.getD sl.cmd_result
    cmd_return := reply.ret.getD sl.cmd_return
    error_msg := reply.msg.getD sl.error_msg }

/-- What a client writes that finds the worker's process gone. -/
def Slot.terminated (sl : Slot ι) : Slot ι :=
  { sl with
    cmd_result := -1
    error_msg := "LinuxSQL Background worker (PID " ++ toString sl.worker_pid ++ ") terminated unexpectedly" }

/-- `kill(worker_pid, 0) != 0`. -/
def WorkerAt.exited : WorkerAt → Bool
  | .gone | .dead => true
  | _ => false

/-- One move of `linuxsql_vm_worker_main`. -/
def Channel.work (s : Channel ι V) : Channel ι V :=
  match s.worker with
  | .top =>
    if s.got_sigterm || s.slot.shutdown_requested then { s with worker := .leaving }
    else { s with worker := .picked s.slot.cmd s.slot.ticket }
  | .picked cmd t =>
    -- no branch for these two: WaitLatch
    if cmd = .idle ∨ cmd = .save then { s with worker := .asleep }
    else { s with worker := .loaded cmd t s.slot.cmd_arg }
  | .loaded cmd t arg =>
    let r := exec cmd arg s.slot.cmd_arg_ext s.slot.input s.vm
    { s with
      vm := r.1
      worker := .ran cmd t r.2
      executions := s.executions ++ [⟨t, cmd, arg, s.slot.cmd_arg_ext, s.slot.input, r.2⟩] }
  | .ran cmd t reply => { s with slot := s.slot.store reply, worker := .stored cmd t }
  | .stored cmd t =>
    { s with
      slot := { s.slot with cmd := .idle }
      -- STEP clears `flush`, so the loop waits; HALT clears `running`
      worker := if cmd = .halt then .leaving else if cmd = .step then .asleep else .top
      finished := s.finished ++ [t] }
  | .asleep => { s with worker := .top }
  | .leaving => { s with slot := { s.slot with worker_ready := false, shutdown_requested := true }, worker := .gone }
  | .gone | .dead => s

/-- A client looks whether its call is over, and whether the worker still runs. -/
def Channel.poll (s : Channel ι V) (i : ι) : Channel ι V :=
  match s.clients i with
  | .waiting t =>
    if s.slot.cmd = .idle ∨ s.slot.shutdown_requested = true then { s with clients := setAt s.clients i (.done t) }
    else if 0 < s.slot.worker_pid ∧ s.worker.exited = true then
      { s with slot := s.slot.terminated, clients := setAt s.clients i (.done t) }
    else s
  | _ => s

def Channel.step (s : Channel ι V) : ChannelEvent ι → Channel ι V
  | .call i r =>
    match s.clients i with
    | .outside =>
      if s.slot.worker_ready then
        { s with clients := setAt s.clients i (if r.input = none then .calling r else .writing r) }
      else s
    | _ => s
  | .write i =>
    match s.clients i with
    | .writing r =>
      { s with
        slot := { s.slot with input_buf := r.fill s.slot.input_buf }
        clients := setAt s.clients i (.written r) }
    | _ => s
  | .enter i =>
    match s.clients i with
    | .written r => { s with clients := setAt s.clients i (if s.slot.worker_ready then .calling r else .outside) }
    | _ => s
  | .submit i =>
    match s.clients i with
    | .calling r =>
      { s with
        slot := s.slot.submit i r s.submissions.length
        clients := setAt s.clients i (.waiting s.submissions.length)
        submissions := s.submissions ++ [⟨i, r⟩] }
    | _ => s
  | .poll i => s.poll i
  | .interrupt i =>
    match s.clients i with
    | .waiting _ => { s with clients := setAt s.clients i .outside }
    | _ => s
  | .ret i =>
    match s.clients i with
    | .done t =>
      { s with
        clients := setAt s.clients i .outside
        returns := s.returns ++ [⟨t, s.slot.cmd_result, s.slot.cmd_return, s.slot.error_msg⟩] }
    | _ => s
  | .work => s.work exec
  | .sigterm => { s with got_sigterm := true }
  | .crash =>
    match s.worker with
    | .gone => s
    | _ => { s with worker := .dead }

/-- A channel whose worker, the process `pid`, has just come up. -/
def Channel.start (pid : Int) (vm : V) : Channel ι V where
  slot := ⟨pid, true, false, .idle, 0, 0, 0, 0, "", fun _ => 0, none, 0⟩
  vm := vm
  worker := .top
  got_sigterm := false
  clients _ := .outside
  submissions := []
  executions := []
  finished := []
  returns := []

/-! ## Exactly once -/

/-- The execution is of this request. -/
structure Execution.Of (e : Execution) (r : Request) : Prop where
  cmd : e.cmd = r.cmd
  arg : e.arg = r.arg
  arg_ext : ∀ x, r.arg_ext = some x → e.arg_ext = x
  input : ∀ x, r.input = some x → e.input = x

/-- The client read what the command wrote; a command that writes no result counts as 0. -/
def Return.Answers (r : Return) (reply : Reply) : Prop :=
  r.cmd_result = reply.result.getD 0 ∧ (∀ v, reply.ret = some v → r.cmd_return = v) ∧
    ∀ m, reply.msg = some m → r.error_msg = m

def Channel.executed (s : Channel ι V) : List Nat := s.executions.map fun e => e.ticket

structure Channel.ExactlyOnce (s : Channel ι V) : Prop where
  own : ∀ e ∈ s.executions, ∃ sub, s.submissions[e.ticket]? = some sub ∧ e.Of sub.request
  once : s.executed.Nodup
  /-- The worker, left to itself, has run every command. -/
  kept : ∀ t < s.submissions.length, ∃ n, t ∈ ((Channel.work exec)^[n] s).executed
  returned : ∀ r ∈ s.returns, r.ticket ∈ s.finished ∧ ∃ e ∈ s.executions, e.ticket = r.ticket ∧ r.Answers e.reply

/-- The client has submitted, and not returned. -/
def ClientAt.Waits : ClientAt → Prop
  | .waiting _ | .done _ => True
  | _ => False

/-- The client's text is in the input buffer, and not submitted. -/
def ClientAt.HoldsInput : ClientAt → Prop
  | .written _ => True
  | .calling r => r.input ≠ none
  | _ => False

/-- The client is about to write such a text. -/
def ClientAt.Stale (b : Nat → U8) : ClientAt → Prop
  | .writing r => r.Stale b
  | _ => False

/-- The worker will look at the slot again before it runs anything. -/
def WorkerAt.Looks : WorkerAt → Prop
  | .top | .asleep => True
  | .picked cmd _ => cmd = .idle
  | _ => False

/-- The worker is out of its loop. -/
def WorkerAt.Left : WorkerAt → Prop
  | .leaving | .gone | .dead => True
  | _ => False

/-- A submission over a call in progress, over the command of a cancelled one or to a worker that is to leave its loop; a
text over one that is still to be read, or that an old byte runs on from; an end of the worker before it has run its
command. -/
def Channel.Contended (s : Channel ι V) : ChannelEvent ι → Prop
  | .submit _ => (∃ j, (s.clients j).Waits) ∨ s.slot.cmd ≠ .idle ∨ s.got_sigterm = true ∨ s.worker.Left
  | .write i => s.slot.cmd = .send ∨ (∃ j, (s.clients j).HoldsInput) ∨ (s.clients i).Stale s.slot.input_buf
  | .sigterm => s.slot.cmd ≠ .idle ∧ s.worker.Looks
  | .crash => s.slot.cmd ≠ .idle
  | _ => False

end Moves

/-! ## One call at a time -/

@[simp] theorem WorkerAt.looks_top : WorkerAt.top.Looks := trivial

@[simp] theorem WorkerAt.looks_asleep : WorkerAt.asleep.Looks := trivial

@[simp] theorem WorkerAt.looks_picked (t : Nat) : (WorkerAt.picked .idle t).Looks := rfl

theorem WorkerAt.Looks.not_left {w : WorkerAt} (h : w.Looks) : ¬ w.Left := by
  cases w <;> first | exact h.elim | exact id

/-- The client is about to submit the request, whose text is in the buffer if it has one. -/
def ClientAt.Carries (c : ClientAt) (r : Request) : Prop := c = .written r ∨ c = .calling r

theorem ClientAt.Carries.holdsInput {c : ClientAt} {r : Request} {x : List U8} (h : c.Carries r) (hx : r.input = some x) :
    c.HoldsInput := by
  rcases h with rfl | rfl
  · trivial
  · show r.input ≠ none
    rw [hx]
    exact Option.some_ne_none x

theorem ClientAt.not_carries {c : ClientAt} {r : Request} (h : c = .outside ∨ (∃ q, c = .writing q) ∨ c.Waits) :
    ¬ c.Carries r := by
  rintro (rfl | rfl) <;> rcases h with h | ⟨q, h⟩ | h <;> cases h

theorem ClientAt.Carries.unique {c : ClientAt} {r q : Request} (h : c.Carries r) (h' : c.Carries q) : r = q := by
  rcases h with rfl | rfl <;> rcases h' with h' | h' <;> cases h' <;> rfl

section Slots

variable {ι V : Type}

/-- The slot holds submission `k`. -/
structure Slot.Holds (sl : Slot ι) (k : Nat) (r : Request) : Prop where
  cmd : sl.cmd = r.cmd
  arg : sl.cmd_arg = r.arg
  arg_ext : ∀ x, r.arg_ext = some x → sl.cmd_arg_ext = x
  input : ∀ x, r.input = some x → sl.input = x
  ticket : sl.ticket = k
  result : sl.cmd_result = 0

/-- What a client would read now. -/
def Slot.answer (sl : Slot ι) (k : Nat) : Return := ⟨k, sl.cmd_result, sl.cmd_return, sl.error_msg⟩

def executedOf (es : List Execution) : List Nat := es.map fun e => e.ticket

/-- How far the worker is with submission `k`. -/
inductive Progress (k : Nat) (r : Request) (sl : Slot ι) (w : WorkerAt) (sig : Bool) (es : List Execution) (fin : List Nat) :
    Prop
  | queued (hold : sl.Holds k r) (look : w.Looks) (hsig : sig = false) (hex : executedOf es = .range k) (hfin : fin = .range k)
  | picked (hold : sl.Holds k r) (hw : w = .picked r.cmd k) (hex : executedOf es = .range k) (hfin : fin = .range k)
  | loaded (hold : sl.Holds k r) (hw : w = .loaded r.cmd k r.arg) (hex : executedOf es = .range k) (hfin : fin = .range k)
  | ran (e : Execution) (he : e ∈ es) (ht : e.ticket = k) (hcmd : sl.cmd = r.cmd) (hres : sl.cmd_result = 0)
      (hw : w = .ran r.cmd k e.reply) (hex : executedOf es = .range (k + 1)) (hfin : fin = .range k)
  | stored (e : Execution) (he : e ∈ es) (ht : e.ticket = k) (ans : (sl.answer k).Answers e.reply)
      (hcmd : sl.cmd = r.cmd) (hw : w = .stored r.cmd k) (hex : executedOf es = .range (k + 1)) (hfin : fin = .range k)
  | ended (e : Execution) (he : e ∈ es) (ht : e.ticket = k) (ans : (sl.answer k).Answers e.reply) (hidle : sl.cmd = .idle)
      (rest : w.Looks ∨ w.Left) (hex : executedOf es = .range (k + 1)) (hfin : fin = .range (k + 1))

/-- What holds whatever the clients do. -/
structure Channel.Sound (s : Channel ι V) : Prop where
  own : ∀ e ∈ s.executions, ∃ sub, s.submissions[e.ticket]? = some sub ∧ e.Of sub.request
  returned : ∀ r ∈ s.returns, r.ticket ∈ s.finished ∧ ∃ e ∈ s.executions, e.ticket = r.ticket ∧ r.Answers e.reply
  up : s.worker ≠ .gone → s.slot.shutdown_requested = false
  /-- A text that is not submitted yet is in the buffer. -/
  text : ∀ j r x, (s.clients j).Carries r → r.input = some x → s.slot.input = x

/-- At most one call is in progress; that of submission `k` may have been cancelled. -/
inductive Channel.Serial (s : Channel ι V) : Prop
  | free (hfree : ∀ j, ¬ (s.clients j).Waits) (hidle : s.slot.cmd = .idle) (rest : s.worker.Looks ∨ s.worker.Left)
      (hex : s.executed = .range s.submissions.length) (hfin : s.finished = .range s.submissions.length)
  | busy (k : Nat) (i : ι) (r : Request) (hlen : s.submissions.length = k + 1) (hsub : s.submissions[k]? = some ⟨i, r⟩)
      (hi : s.clients i = .waiting k ∨ s.clients i = .done k ∧ k ∈ s.finished ∨ ¬ (s.clients i).Waits)
      (hfree : ∀ j, j ≠ i → ¬ (s.clients j).Waits)
      (hp : Progress k r s.slot s.worker s.got_sigterm s.executions s.finished)

end Slots

theorem Request.cmd_ne_idle (r : Request) : r.cmd ≠ .idle := by cases r <;> simp [Request.cmd]

theorem Request.cmd_ne_save (r : Request) : r.cmd ≠ .save := by cases r <;> simp [Request.cmd]

/-- Only a SEND has a text. -/
theorem Request.cmd_of_input {r : Request} {x : List U8} (h : r.input = some x) : r.cmd = .send := by
  cases r <;> first | rfl | cases h

section Steps

variable {ι V : Type} {exec : CommandExec V} {s : Channel ι V}

theorem executed_work_succ {t : Nat} (h : ∃ n, t ∈ ((Channel.work exec)^[n] (s.work exec)).executed) :
    ∃ n, t ∈ ((Channel.work exec)^[n] s).executed := by
  obtain ⟨n, hn⟩ := h
  exact ⟨n + 1, hn⟩

/-- **The worker by itself runs the submission in progress.** -/
theorem Progress.runs {k : Nat} {r : Request} (hp : Progress k r s.slot s.worker s.got_sigterm s.executions s.finished)
    (hup : s.slot.shutdown_requested = false) : ∃ n, k ∈ ((Channel.work exec)^[n] s).executed := by
  have hloaded : ∀ u : Channel ι V, u.worker = .loaded r.cmd k r.arg →
      ∃ n, k ∈ ((Channel.work exec)^[n] u).executed := by
    intro u hu
    refine ⟨1, ?_⟩
    simp [Channel.work, Channel.executed, hu]
  have hpicked : ∀ u : Channel ι V, u.slot.cmd_arg = r.arg → u.worker = .picked r.cmd k →
      ∃ n, k ∈ ((Channel.work exec)^[n] u).executed := by
    intro u harg hu
    refine executed_work_succ (hloaded _ ?_)
    simp [Channel.work, hu, r.cmd_ne_idle, r.cmd_ne_save, harg]
  have htop : ∀ u : Channel ι V, u.slot = s.slot → u.slot.Holds k r → u.got_sigterm = false → u.worker = .top →
      ∃ n, k ∈ ((Channel.work exec)^[n] u).executed := by
    intro u hslot hold hsig hu
    refine executed_work_succ (hpicked _ ?_ ?_)
    · simp [Channel.work, hu, hslot, hsig, hup, ← hold.arg]
    · simp [Channel.work, hu, hslot, hsig, hup, ← hold.cmd, ← hold.ticket]
  have hasleep : ∀ u : Channel ι V, u.slot = s.slot → u.slot.Holds k r → u.got_sigterm = false → u.worker = .asleep →
      ∃ n, k ∈ ((Channel.work exec)^[n] u).executed := by
    intro u hslot hold hsig hu
    have hwork : u.work exec = { u with worker := .top } := by simp [Channel.work, hu]
    exact executed_work_succ (by rw [hwork]; exact htop _ hslot hold hsig rfl)
  have hdone : executedOf s.executions = .range (k + 1) → ∃ n, k ∈ ((Channel.work exec)^[n] s).executed := by
    intro hex
    refine ⟨0, ?_⟩
    show k ∈ executedOf s.executions
    simp [hex]
  cases hp with
  | queued hold look hsig =>
    cases hw : s.worker with
    | top => exact htop s rfl hold hsig hw
    | asleep => exact hasleep s rfl hold hsig hw
    | picked cmd t =>
      rw [hw] at look
      obtain rfl : cmd = .idle := look
      have hwork : s.work exec = { s with worker := .asleep } := by simp [Channel.work, hw]
      exact executed_work_succ (by rw [hwork]; exact hasleep _ rfl hold hsig rfl)
    | loaded | ran | stored | leaving | gone | dead => rw [hw] at look; exact look.elim
  | picked hold hw => exact hpicked s hold.arg hw
  | loaded hold hw => exact hloaded s hw
  | ran _ _ _ _ _ _ hex => exact hdone hex
  | stored _ _ _ _ _ _ hex => exact hdone hex
  | ended _ _ _ _ _ _ hex => exact hdone hex

/-- **A serial channel is exact.** -/
theorem Channel.Serial.exactlyOnce (h : s.Serial) (hs : s.Sound) : s.ExactlyOnce exec := by
  have hcount : ∀ n, s.executed = .range n → s.executed.Nodup ∧ ∀ t < n, ∃ m, t ∈ ((Channel.work exec)^[m] s).executed := by
    intro n hex
    refine ⟨hex ▸ List.nodup_range, fun t ht => ⟨0, ?_⟩⟩
    show t ∈ s.executed
    simpa [hex] using ht
  cases h with
  | free _ _ _ hex => exact ⟨hs.own, (hcount _ hex).1, (hcount _ hex).2, hs.returned⟩
  | busy k i r hlen _ _ _ hp =>
    have hcases : s.executed = .range k ∧ s.worker ≠ .gone ∨ s.executed = .range (k + 1) := by
      cases hp with
      | queued _ look _ hex => exact .inl ⟨hex, fun hg => look.not_left (by rw [hg]; trivial)⟩
      | picked _ hw hex => exact .inl ⟨hex, by simp [hw]⟩
      | loaded _ hw hex => exact .inl ⟨hex, by simp [hw]⟩
      | ran _ _ _ _ _ _ hex => exact .inr hex
      | stored _ _ _ _ _ _ hex => exact .inr hex
      | ended _ _ _ _ _ _ hex => exact .inr hex
    rcases hcases with ⟨hex, hgone⟩ | hex
    · refine ⟨hs.own, (hcount _ hex).1, fun t ht => ?_, hs.returned⟩
      by_cases htk : t = k
      · subst htk
        exact hp.runs (hs.up hgone)
      · exact (hcount _ hex).2 t (by omega)
    · exact ⟨hs.own, (hcount _ hex).1, fun t ht => (hcount _ hex).2 t (by omega), hs.returned⟩

/-! ## The worker's moves -/

theorem work_others (exec : CommandExec V) (s : Channel ι V) : (s.work exec).clients = s.clients ∧
    (s.work exec).submissions = s.submissions ∧ (s.work exec).returns = s.returns ∧
    (∀ t ∈ s.finished, t ∈ (s.work exec).finished) ∧ (∀ e ∈ s.executions, e ∈ (s.work exec).executions) ∧
    (s.work exec).got_sigterm = s.got_sigterm ∧ (s.work exec).slot.input_buf = s.slot.input_buf := by
  unfold Channel.work
  split
  · split <;> exact ⟨rfl, rfl, rfl, fun _ => id, fun _ => id, rfl, rfl⟩
  · split <;> exact ⟨rfl, rfl, rfl, fun _ => id, fun _ => id, rfl, rfl⟩
  · exact ⟨rfl, rfl, rfl, fun _ => id, fun _ he => List.mem_append_left _ he, rfl, rfl⟩
  · exact ⟨rfl, rfl, rfl, fun _ => id, fun _ => id, rfl, rfl⟩
  · exact ⟨rfl, rfl, rfl, fun _ ht => List.mem_append_left _ ht, fun _ => id, rfl, rfl⟩
  all_goals exact ⟨rfl, rfl, rfl, fun _ => id, fun _ => id, rfl, rfl⟩

/-- Only the worker's last move takes the channel down. -/
theorem work_up (hup : s.worker ≠ .gone → s.slot.shutdown_requested = false) (h : (s.work exec).worker ≠ .gone) :
    (s.work exec).slot.shutdown_requested = false := by
  cases hw : s.worker with
  | gone => simp [Channel.work, hw] at h
  | leaving => simp [Channel.work, hw] at h
  | top =>
    have hopen := hup (by simp [hw])
    unfold Channel.work
    rw [hw]
    dsimp only
    split <;> exact hopen
  | picked cmd t =>
    have hopen := hup (by simp [hw])
    unfold Channel.work
    rw [hw]
    dsimp only
    split <;> exact hopen
  | loaded | ran | stored | asleep | dead =>
    have hopen := hup (by simp [hw])
    simp [Channel.work, hw, hopen, Slot.store]

/-- A move over an idle slot runs nothing. -/
theorem work_idle (exec : CommandExec V) (hidle : s.slot.cmd = .idle) (rest : s.worker.Looks ∨ s.worker.Left)
    (hup : s.worker ≠ .gone → s.slot.shutdown_requested = false) :
    (s.work exec).slot.cmd = .idle ∧ ((s.work exec).worker.Looks ∨ (s.work exec).worker.Left) ∧
      (s.work exec).executions = s.executions ∧ (s.work exec).finished = s.finished ∧
      ∀ k, (s.work exec).slot.answer k = s.slot.answer k := by
  cases hw : s.worker with
  | top =>
    have hopen := hup (by simp [hw])
    cases hsig : s.got_sigterm <;> simp [Channel.work, hw, hopen, hsig, hidle, WorkerAt.Left]
  | asleep => simp [Channel.work, hw, hidle]
  | picked cmd t =>
    rw [hw] at rest
    obtain rfl : cmd = .idle := rest.resolve_right id
    simp [Channel.work, hw, hidle]
  | leaving | gone | dead => simp [Channel.work, hw, hidle, WorkerAt.Left, Slot.answer]
  | loaded | ran | stored =>
    rw [hw] at rest
    exact (rest.elim id id).elim

/-- **A move of the worker brings the submission in progress on.** -/
theorem Progress.work {k : Nat} {r : Request} (hp : Progress k r s.slot s.worker s.got_sigterm s.executions s.finished)
    (hup : s.worker ≠ .gone → s.slot.shutdown_requested = false) :
    Progress k r (s.work exec).slot (s.work exec).worker (s.work exec).got_sigterm (s.work exec).executions
      (s.work exec).finished := by
  cases hp with
  | queued hold look hsig hex hfin =>
    cases hw : s.worker with
    | top =>
      have hopen := hup (by simp [hw])
      have hwork : s.work exec = { s with worker := .picked r.cmd k } := by
        simp [Channel.work, hw, hopen, hsig, hold.cmd, hold.ticket]
      rw [hwork]
      exact .picked hold rfl hex hfin
    | asleep =>
      have hwork : s.work exec = { s with worker := .top } := by simp [Channel.work, hw]
      rw [hwork]
      exact .queued hold trivial hsig hex hfin
    | picked cmd t =>
      rw [hw] at look
      obtain rfl : cmd = .idle := look
      have hwork : s.work exec = { s with worker := .asleep } := by simp [Channel.work, hw]
      rw [hwork]
      exact .queued hold trivial hsig hex hfin
    | loaded | ran | stored | leaving | gone | dead => rw [hw] at look; exact look.elim
  | picked hold hw hex hfin =>
    have hwork : s.work exec = { s with worker := .loaded r.cmd k r.arg } := by
      simp [Channel.work, hw, r.cmd_ne_idle, r.cmd_ne_save, hold.arg]
    rw [hwork]
    exact .loaded hold rfl hex hfin
  | loaded hold hw hex hfin =>
    have hwork : s.work exec = { s with
        vm := (exec r.cmd r.arg s.slot.cmd_arg_ext s.slot.input s.vm).1
        worker := .ran r.cmd k (exec r.cmd r.arg s.slot.cmd_arg_ext s.slot.input s.vm).2
        executions := s.executions ++ [⟨k, r.cmd, r.arg, s.slot.cmd_arg_ext, s.slot.input,
          (exec r.cmd r.arg s.slot.cmd_arg_ext s.slot.input s.vm).2⟩] } := by
      simp [Channel.work, hw]
    rw [hwork]
    refine .ran _ (List.mem_append_right _ (List.mem_singleton.2 rfl)) rfl hold.cmd hold.result rfl ?_ hfin
    rw [List.range_succ, ← hex]
    simp [executedOf]
  | ran e he ht hcmd hres hw hex hfin =>
    have hwork : s.work exec = { s with slot := s.slot.store e.reply, worker := .stored r.cmd k } := by
      simp [Channel.work, hw]
    rw [hwork]
    refine .stored e he ht ⟨?_, ?_, ?_⟩ hcmd rfl hex hfin
    · show e.reply.result.getD s.slot.cmd_result = _
      rw [hres]
    · intro v hv
      show e.reply.ret.getD s.slot.cmd_return = v
      rw [hv]
      rfl
    · intro m hm
      show e.reply.msg.getD s.slot.error_msg = m
      rw [hm]
      rfl
  | stored e he ht ans hcmd hw hex hfin =>
    have hwork : s.work exec = { s with
        slot := { s.slot with cmd := .idle }
        worker := if r.cmd = .halt then .leaving else if r.cmd = .step then .asleep else .top
        finished := s.finished ++ [k] } := by
      simp [Channel.work, hw]
    rw [hwork]
    refine .ended e he ht ans rfl ?_ hex ?_
    · dsimp only
      split
      · exact .inr trivial
      · split <;> exact .inl trivial
    · rw [List.range_succ, ← hfin]
  | ended e he ht ans hidle rest hex hfin =>
    obtain ⟨hidle', rest', hes, hfs, hans⟩ := work_idle exec hidle rest hup
    rw [hes, hfs]
    exact .ended e he ht (by rw [hans]; exact ans) hidle' rest' hex hfin

/-- The worker runs the submission whose command and arguments it took. -/
theorem Channel.Sound.work (hs : s.Sound) (h : s.Serial) : (s.work exec).Sound := by
  obtain ⟨hclients, hsubs, hret, hfin, hexec, -, hbuf⟩ := work_others exec s
  refine ⟨?_, ?_, work_up hs.up, ?_⟩
  · rw [hsubs]
    cases h with
    | free _ hidle rest =>
      rw [(work_idle exec hidle rest hs.up).2.2.1]
      exact hs.own
    | busy k i r _ hsub _ _ hp =>
      by_cases hw : ∃ cmd t arg, s.worker = .loaded cmd t arg
      · obtain ⟨cmd, t, arg, hw⟩ := hw
        cases hp with
        | queued _ look => rw [hw] at look; exact look.elim
        | picked _ hw' => rw [hw] at hw'; cases hw'
        | loaded hold hw' =>
          rw [hw] at hw'
          cases hw'
          intro e he
          simp only [Channel.work, hw, List.mem_append, List.mem_singleton] at he
          rcases he with he | rfl
          · exact hs.own e he
          · exact ⟨_, hsub, rfl, rfl, hold.arg_ext, hold.input⟩
        | ran _ _ _ _ _ hw' => rw [hw] at hw'; cases hw'
        | stored _ _ _ _ _ hw' => rw [hw] at hw'; cases hw'
        | ended _ _ _ _ _ rest => rw [hw] at rest; exact (rest.elim id id).elim
      · have hsame : (s.work exec).executions = s.executions := by
          unfold Channel.work
          split
          · split <;> rfl
          · split <;> rfl
          next cmd t arg hl => exact absurd ⟨cmd, t, arg, hl⟩ hw
          all_goals rfl
        rw [hsame]
        exact hs.own
  · rw [hret]
    intro ret hr
    obtain ⟨hf, e, he, ht, ha⟩ := hs.returned ret hr
    exact ⟨hfin _ hf, e, hexec e he, ht, ha⟩
  · unfold Slot.input
    rw [hclients, hbuf]
    exact hs.text

theorem Channel.Serial.work (h : s.Serial) (hs : s.Sound) : (s.work exec).Sound ∧ (s.work exec).Serial := by
  refine ⟨hs.work h, ?_⟩
  obtain ⟨hclients, hsubs, -, hfin, -⟩ := work_others exec s
  cases h with
  | free hfree hidle rest hex hfins =>
    obtain ⟨hidle', rest', hes, hfs, -⟩ := work_idle exec hidle rest hs.up
    refine .free (by rwa [hclients]) hidle' rest' ?_ (by rw [hsubs, hfs]; exact hfins)
    unfold Channel.executed
    rw [hsubs, hes]
    exact hex
  | busy k i r hlen hsub hi hfree hp =>
    refine .busy k i r (by rw [hsubs]; exact hlen) (by rw [hsubs]; exact hsub) ?_ (by rwa [hclients]) (hp.work hs.up)
    rw [hclients]
    exact hi.imp_right (Or.imp_left fun hd => ⟨hd.1, hfin _ hd.2⟩)

/-! ## The clients' moves -/

section Progress

variable {k : Nat} {r : Request} {sl : Slot ι} {w : WorkerAt} {sig : Bool} {es : List Execution} {fin : List Nat}

/-- A finished submission is over. -/
theorem Progress.of_finished (hp : Progress k r sl w sig es fin) (h : k ∈ fin) :
    sl.cmd = .idle ∧ (w.Looks ∨ w.Left) ∧ executedOf es = .range (k + 1) ∧ fin = .range (k + 1) ∧
      ∃ e ∈ es, e.ticket = k ∧ (sl.answer k).Answers e.reply := by
  cases hp with
  | queued _ _ _ _ hfin => simp [hfin] at h
  | picked _ _ _ hfin => simp [hfin] at h
  | loaded _ _ _ hfin => simp [hfin] at h
  | ran _ _ _ _ _ _ _ hfin => simp [hfin] at h
  | stored _ _ _ _ _ _ _ hfin => simp [hfin] at h
  | ended e he ht ans hidle rest hex hfin => exact ⟨hidle, rest, hex, hfin, e, he, ht, ans⟩

/-- Until it is finished its command is in the slot, and the worker in its loop. -/
theorem Progress.finished_or (hp : Progress k r sl w sig es fin) : k ∈ fin ∨ sl.cmd = r.cmd ∧ ¬ w.Left := by
  cases hp with
  | queued hold look => exact .inr ⟨hold.cmd, look.not_left⟩
  | picked hold hw => exact .inr ⟨hold.cmd, by rw [hw]; exact id⟩
  | loaded hold hw => exact .inr ⟨hold.cmd, by rw [hw]; exact id⟩
  | ran _ _ _ hcmd _ hw => exact .inr ⟨hcmd, by rw [hw]; exact id⟩
  | stored _ _ _ _ hcmd hw => exact .inr ⟨hcmd, by rw [hw]; exact id⟩
  | ended _ _ _ _ _ _ _ hfin => exact .inl (by simp [hfin])

/-- A client that sees the slot idle sees its submission finished. -/
theorem Progress.finished_of_idle (hp : Progress k r sl w sig es fin) (hup : w ≠ .gone → sl.shutdown_requested = false)
    (h : sl.cmd = .idle ∨ sl.shutdown_requested = true) : k ∈ fin := by
  refine hp.finished_or.resolve_right fun ⟨hcmd, hleft⟩ => ?_
  rcases h with h | h
  · exact r.cmd_ne_idle (hcmd.symm.trans h)
  · rw [hup fun hg => hleft (by rw [hg]; trivial)] at h
    cases h

/-- A text for the next SEND does not touch a submission that is none. -/
theorem Progress.write (hp : Progress k r sl w sig es fin) (hsend : sl.cmd ≠ .send) (b : Nat → U8) :
    Progress k r { sl with input_buf := b } w sig es fin := by
  have hold' (hold : sl.Holds k r) : Slot.Holds { sl with input_buf := b } k r :=
    ⟨hold.cmd, hold.arg, hold.arg_ext, fun x hx => absurd (hold.cmd.trans (Request.cmd_of_input hx)) hsend, hold.ticket,
      hold.result⟩
  cases hp with
  | queued hold look hsig hex hfin => exact .queued (hold' hold) look hsig hex hfin
  | picked hold hw hex hfin => exact .picked (hold' hold) hw hex hfin
  | loaded hold hw hex hfin => exact .loaded (hold' hold) hw hex hfin
  | ran e he ht hcmd hres hw hex hfin => exact .ran e he ht hcmd hres hw hex hfin
  | stored e he ht ans hcmd hw hex hfin => exact .stored e he ht ans hcmd hw hex hfin
  | ended e he ht ans hidle rest hex hfin => exact .ended e he ht ans hidle rest hex hfin

/-- A signal that finds nothing to pick up lets the worker finish. -/
theorem Progress.sigterm (hp : Progress k r sl w sig es fin) (h : ¬ (sl.cmd ≠ .idle ∧ w.Looks)) :
    Progress k r sl w true es fin := by
  cases hp with
  | queued hold look => exact absurd ⟨fun hidle => r.cmd_ne_idle (hold.cmd.symm.trans hidle), look⟩ h
  | picked hold hw hex hfin => exact .picked hold hw hex hfin
  | loaded hold hw hex hfin => exact .loaded hold hw hex hfin
  | ran e he ht hcmd hres hw hex hfin => exact .ran e he ht hcmd hres hw hex hfin
  | stored e he ht ans hcmd hw hex hfin => exact .stored e he ht ans hcmd hw hex hfin
  | ended e he ht ans hidle rest hex hfin => exact .ended e he ht ans hidle rest hex hfin

end Progress

variable [DecidableEq ι]

theorem setAt_free {f : ι → ClientAt} {i j : ι} {c : ClientAt} (hf : ¬ (f j).Waits) (hc : ¬ c.Waits) :
    ¬ (setAt f i c j).Waits := by
  unfold setAt
  split
  · exact hc
  · exact hf

theorem setAt_free_self {f : ι → ClientAt} {i : ι} {c : ClientAt} (hc : ¬ c.Waits) : ¬ (setAt f i c i).Waits := by
  rw [setAt_self]
  exact hc

theorem setAt_carries {f : ι → ClientAt} {i j : ι} {c : ClientAt} {r : Request} (h : (setAt f i c j).Carries r) :
    j = i ∧ c.Carries r ∨ j ≠ i ∧ (f j).Carries r := by
  by_cases hji : j = i
  · subst hji
    rw [setAt_self] at h
    exact .inl ⟨rfl, h⟩
  · rw [setAt_ne _ _ hji] at h
    exact .inr ⟨hji, h⟩

theorem setAt_free_of_ne {f : ι → ClientAt} {i j : ι} {c : ClientAt} (h : ¬ (f j).Waits) (hne : j ≠ i) :
    ¬ (setAt f i c j).Waits := by
  rw [setAt_ne _ _ hne]
  exact h

/-- A client outside its call moves. -/
theorem Channel.Serial.move (h : s.Serial) {i : ι} (hi : ¬ (s.clients i).Waits) {c : ClientAt} (hc : ¬ c.Waits) :
    Channel.Serial { s with clients := setAt s.clients i c } := by
  cases h with
  | free hfree hidle rest hex hfin => exact .free (fun j => setAt_free (hfree j) hc) hidle rest hex hfin
  | busy k j q hlen hsub hj hfree hp =>
    refine .busy k j q hlen hsub ?_ (fun l hl => setAt_free (hfree l hl) hc) hp
    by_cases hji : j = i
    · subst hji
      exact .inr (.inr (setAt_free_self hc))
    · simpa [setAt_ne _ _ hji] using hj

theorem Channel.Sound.move (hs : s.Sound) (i : ι) {c : ClientAt}
    (hc : ∀ r x, c.Carries r → r.input = some x → s.slot.input = x) :
    Channel.Sound { s with clients := setAt s.clients i c } := by
  refine ⟨hs.own, hs.returned, hs.up, fun j r x hj hx => ?_⟩
  rcases setAt_carries hj with ⟨-, hj⟩ | ⟨-, hj⟩
  · exact hc r x hj hx
  · exact hs.text j r x hj hx

/-- **A text that no other client's is in the way of is in the buffer.** -/
theorem Channel.Serial.write (h : s.Serial) (hs : s.Sound) {i : ι} {r : Request} (hi : s.clients i = .writing r)
    (hev : ¬ s.Contended (.write i)) : (s.step exec (.write i)).Sound ∧ (s.step exec (.write i)).Serial := by
  have hsend : s.slot.cmd ≠ .send := fun hcmd => hev (.inl hcmd)
  have hstale : ¬ r.Stale s.slot.input_buf := fun hstale => hev (.inr (.inr (by rw [hi]; exact hstale)))
  have hwaits : ¬ (s.clients i).Waits := by
    rw [hi]
    exact id
  have hstep : s.step exec (.write i) = { s with
      slot := { s.slot with input_buf := r.fill s.slot.input_buf }
      clients := setAt s.clients i (.written r) } := by
    simp [Channel.step, hi]
  rw [hstep]
  constructor
  · refine ⟨hs.own, hs.returned, hs.up, fun j q x hj hx => ?_⟩
    rcases setAt_carries hj with ⟨-, hj⟩ | ⟨-, hj⟩
    · obtain rfl : r = q := ClientAt.Carries.unique (.inl rfl) hj
      exact Request.fill_input hstale hx
    · exact absurd (.inr (.inl ⟨j, hj.holdsInput hx⟩)) hev
  · have hmoved := h.move hwaits (c := .written r) id
    cases hmoved with
    | free hfree hidle rest hex hfin => exact .free hfree hidle rest hex hfin
    | busy k j q hlen hsub hj hfree hp => exact .busy k j q hlen hsub hj hfree (hp.write hsend _)

theorem Channel.Serial.submit (h : s.Serial) (hs : s.Sound) {i : ι} {r : Request} (hi : s.clients i = .calling r)
    (hev : ¬ s.Contended (.submit i)) : (s.step exec (.submit i)).Sound ∧ (s.step exec (.submit i)).Serial := by
  have hstep : s.step exec (.submit i) = { s with
      slot := s.slot.submit i r s.submissions.length
      clients := setAt s.clients i (.waiting s.submissions.length)
      submissions := s.submissions ++ [⟨i, r⟩] } := by
    simp [Channel.step, hi]
  have hfree : ∀ j, ¬ (s.clients j).Waits := fun j hj => hev (.inl ⟨j, hj⟩)
  have hidle : s.slot.cmd = .idle := by_contra fun hne => hev (.inr (.inl hne))
  have hsig : s.got_sigterm = false := Bool.not_eq_true _ ▸ fun hsig => hev (.inr (.inr (.inl hsig)))
  have hleft : ¬ s.worker.Left := fun hleft => hev (.inr (.inr (.inr hleft)))
  obtain ⟨look, hex, hfin⟩ : s.worker.Looks ∧ executedOf s.executions = .range s.submissions.length ∧
      s.finished = .range s.submissions.length := by
    cases h with
    | free _ _ rest hex hfin => exact ⟨rest.resolve_right hleft, hex, hfin⟩
    | busy k j q hlen _ _ _ hp =>
      obtain ⟨-, rest, hex, hfin, -⟩ := hp.of_finished (hp.finished_of_idle hs.up (.inl hidle))
      rw [hlen]
      exact ⟨rest.resolve_right hleft, hex, hfin⟩
  rw [hstep]
  constructor
  · refine ⟨fun e he => ?_, hs.returned, hs.up, fun j q x hj hx => ?_⟩
    · obtain ⟨sub, hsub, hof⟩ := hs.own e he
      exact ⟨sub, by rw [List.getElem?_append_left (List.getElem?_eq_some_iff.1 hsub).1]; exact hsub, hof⟩
    · rcases setAt_carries hj with ⟨-, hj⟩ | ⟨-, hj⟩
      · exact absurd hj (ClientAt.not_carries (.inr (.inr trivial)))
      · exact hs.text j q x hj hx
  · refine .busy s.submissions.length i r (by simp) (by simp) (.inl (setAt_self _ _ _))
      (fun j hj => setAt_free_of_ne (hfree j) hj)
      (.queued ⟨rfl, rfl, fun x hx => ?_, fun x hx => hs.text i r x (.inr hi) hx, rfl, rfl⟩ look hsig hex hfin)
    show r.arg_ext.getD s.slot.cmd_arg_ext = x
    rw [hx]
    rfl

omit [DecidableEq ι] in
/-- The call in progress is that of the client that waits. -/
theorem Channel.Serial.own (h : s.Serial) {i : ι} (hi : (s.clients i).Waits) : ∃ k r, s.submissions.length = k + 1 ∧
    s.submissions[k]? = some ⟨i, r⟩ ∧ (s.clients i = .waiting k ∨ s.clients i = .done k ∧ k ∈ s.finished) ∧
      (∀ j, j ≠ i → ¬ (s.clients j).Waits) ∧ Progress k r s.slot s.worker s.got_sigterm s.executions s.finished := by
  cases h with
  | free hfree => exact absurd hi (hfree i)
  | busy k j r hlen hsub hj hfree hp =>
    obtain rfl : i = j := by_contra fun hne => hfree i hne hi
    exact ⟨k, r, hlen, hsub, hj.imp_right fun hj => hj.resolve_right fun hno => hno hi, hfree, hp⟩

/-- **A call ends when its own command is finished**: the worker has not died in front of it. -/
theorem Channel.Serial.poll (h : s.Serial) (hs : s.Sound) {i : ι} {t : Nat} (hi : s.clients i = .waiting t) :
    (s.poll i).Sound ∧ (s.poll i).Serial := by
  obtain ⟨k, r, hlen, hsub, hj, hfree, hp⟩ := h.own (i := i) (by rw [hi]; trivial)
  obtain rfl : t = k := by
    rcases hj with hj | ⟨hj, -⟩ <;> rw [hi] at hj <;> cases hj
    rfl
  by_cases hidle : s.slot.cmd = .idle ∨ s.slot.shutdown_requested = true
  · have hpoll : s.poll i = { s with clients := setAt s.clients i (.done t) } := by simp [Channel.poll, hi, hidle]
    rw [hpoll]
    refine ⟨hs.move i fun q x hq => absurd hq (ClientAt.not_carries (.inr (.inr trivial))), ?_⟩
    exact .busy t i r hlen hsub (.inr (.inl ⟨setAt_self _ _ _, hp.finished_of_idle hs.up hidle⟩))
      (fun l hl => setAt_free_of_ne (hfree l hl) hl) hp
  · have hruns : s.worker.exited = false := by
      obtain hfin | ⟨-, hleft⟩ := hp.finished_or
      · exact absurd (.inl (hp.of_finished hfin).1) hidle
      · cases hw : s.worker <;> first | rfl | (rw [hw] at hleft; exact absurd trivial hleft)
    have hpoll : s.poll i = s := by simp [Channel.poll, hi, hidle, hruns]
    rw [hpoll]
    exact ⟨hs, h⟩

theorem Channel.Serial.ret (h : s.Serial) (hs : s.Sound) {i : ι} {t : Nat} (hi : s.clients i = .done t) :
    (s.step exec (.ret i)).Sound ∧ (s.step exec (.ret i)).Serial := by
  obtain ⟨k, r, hlen, hsub, hj, hfree, hp⟩ := h.own (i := i) (by rw [hi]; trivial)
  obtain ⟨rfl, hk⟩ : t = k ∧ k ∈ s.finished := by
    rcases hj with hj | ⟨hj, hk⟩ <;> rw [hi] at hj <;> cases hj
    exact ⟨rfl, hk⟩
  obtain ⟨hidle, rest, hex, hfin, e, he, ht, ans⟩ := hp.of_finished hk
  have hstep : s.step exec (.ret i) = { s with
      clients := setAt s.clients i .outside
      returns := s.returns ++ [s.slot.answer t] } := by
    simp [Channel.step, hi, Slot.answer]
  have hmoved := hs.move i fun q x hq => absurd hq (ClientAt.not_carries (c := .outside) (.inl rfl))
  rw [hstep]
  constructor
  · refine ⟨hs.own, fun ret hret => ?_, hs.up, hmoved.text⟩
    rcases List.mem_append.1 hret with hret | hret
    · exact hs.returned ret hret
    · obtain rfl := List.mem_singleton.1 hret
      exact ⟨hk, e, he, ht, ans⟩
  · refine .free (fun j => ?_) hidle rest (by rw [hlen]; exact hex) (by rw [hlen]; exact hfin)
    by_cases hji : j = i
    · rw [hji]
      exact setAt_free_self id
    · exact setAt_free_of_ne (hfree j hji) hji

/-- A cancelled call leaves its command in the slot, where the worker runs it. -/
theorem Channel.Serial.interrupt (h : s.Serial) (hs : s.Sound) {i : ι} {t : Nat} (hi : s.clients i = .waiting t) :
    (s.step exec (.interrupt i)).Sound ∧ (s.step exec (.interrupt i)).Serial := by
  obtain ⟨k, r, hlen, hsub, -, hfree, hp⟩ := h.own (i := i) (by rw [hi]; trivial)
  have hstep : s.step exec (.interrupt i) = { s with clients := setAt s.clients i .outside } := by
    simp [Channel.step, hi]
  rw [hstep]
  refine ⟨hs.move i fun q x hq => absurd hq (ClientAt.not_carries (.inl rfl)), ?_⟩
  exact .busy k i r hlen hsub (.inr (.inr (setAt_free_self id))) (fun l hl => setAt_free_of_ne (hfree l hl) hl) hp

theorem Channel.Serial.crash (h : s.Serial) (hs : s.Sound) (hidle : s.slot.cmd = .idle) :
    (s.step exec .crash).Sound ∧ (s.step exec .crash).Serial := by
  by_cases hgone : s.worker = .gone
  · have hstep : s.step exec .crash = s := by simp [Channel.step, hgone]
    rw [hstep]
    exact ⟨hs, h⟩
  · have hstep : s.step exec .crash = { s with worker := .dead } := by
      unfold Channel.step
      dsimp only
      split
      next hw => exact absurd hw hgone
      next => rfl
    rw [hstep]
    refine ⟨⟨hs.own, hs.returned, fun _ => hs.up hgone, hs.text⟩, ?_⟩
    cases h with
    | free hfree hidle _ hex hfin => exact .free hfree hidle (.inr trivial) hex hfin
    | busy k i r hlen hsub hi hfree hp =>
      obtain ⟨-, -, hex, hfin, e, he, ht, ans⟩ := hp.of_finished (hp.finished_of_idle hs.up (.inl hidle))
      exact .busy k i r hlen hsub hi hfree (.ended e he ht ans hidle (.inr trivial) hex hfin)

/-- A client enters a call: of a text, to write it first. -/
theorem Channel.Serial.call (h : s.Serial) (hs : s.Sound) {i : ι} (hi : s.clients i = .outside) (r : Request) :
    (s.step exec (.call i r)).Sound ∧ (s.step exec (.call i r)).Serial := by
  have hfree : ¬ (s.clients i).Waits := by
    rw [hi]
    exact id
  by_cases hready : s.slot.worker_ready = true
  · have hstep : s.step exec (.call i r) =
        { s with clients := setAt s.clients i (if r.input = none then .calling r else .writing r) } := by
      simp [Channel.step, hi, hready]
    rw [hstep]
    by_cases hnone : r.input = none
    · rw [if_pos hnone]
      refine ⟨hs.move i (fun q x hq hx => ?_), h.move hfree id⟩
      obtain rfl : r = q := ClientAt.Carries.unique (.inr rfl) hq
      rw [hnone] at hx
      cases hx
    · rw [if_neg hnone]
      exact ⟨hs.move i fun q x hq => absurd hq (ClientAt.not_carries (.inr (.inl ⟨r, rfl⟩))), h.move hfree id⟩
  · have hstep : s.step exec (.call i r) = s := by simp [Channel.step, hi, hready]
    rw [hstep]
    exact ⟨hs, h⟩

/-- The text that it wrote is still in the buffer when it goes on. -/
theorem Channel.Serial.enter (h : s.Serial) (hs : s.Sound) {i : ι} {r : Request} (hi : s.clients i = .written r) :
    (s.step exec (.enter i)).Sound ∧ (s.step exec (.enter i)).Serial := by
  have hstep : s.step exec (.enter i) =
      { s with clients := setAt s.clients i (if s.slot.worker_ready then .calling r else .outside) } := by
    simp [Channel.step, hi]
  have hfree : ¬ (s.clients i).Waits := by
    rw [hi]
    exact id
  rw [hstep]
  cases s.slot.worker_ready with
  | true =>
    refine ⟨hs.move i (fun q x hq hx => ?_), h.move hfree id⟩
    obtain rfl : r = q := ClientAt.Carries.unique (.inr rfl) hq
    exact hs.text i r x (.inl hi) hx
  | false => exact ⟨hs.move i fun q x hq => absurd hq (ClientAt.not_carries (.inl rfl)), h.move hfree id⟩

theorem Channel.Serial.sigterm (h : s.Serial) (hs : s.Sound) (hev : ¬ s.Contended .sigterm) :
    (s.step exec .sigterm).Sound ∧ (s.step exec .sigterm).Serial := by
  refine ⟨⟨hs.own, hs.returned, hs.up, hs.text⟩, ?_⟩
  cases h with
  | free hfree hidle rest hex hfin => exact .free hfree hidle rest hex hfin
  | busy k i r hlen hsub hi hfree hp => exact .busy k i r hlen hsub hi hfree (hp.sigterm hev)

/-- **A move that is not contended keeps the channel serial.** -/
theorem Channel.Serial.step (h : s.Serial) (hs : s.Sound) {ev : ChannelEvent ι} (hev : ¬ s.Contended ev) :
    (s.step exec ev).Sound ∧ (s.step exec ev).Serial := by
  -- a client that stands elsewhere does nothing
  have hstay {t : Channel ι V} (ht : t = s) : t.Sound ∧ t.Serial := by
    rw [ht]
    exact ⟨hs, h⟩
  cases ev with
  | call i r =>
    cases hi : s.clients i with
    | outside => exact h.call hs hi r
    | writing | written | calling | waiting | done => exact hstay (by simp [Channel.step, hi])
  | write i =>
    cases hi : s.clients i with
    | writing r => exact h.write hs hi hev
    | outside | written | calling | waiting | done => exact hstay (by simp [Channel.step, hi])
  | enter i =>
    cases hi : s.clients i with
    | written r => exact h.enter hs hi
    | outside | writing | calling | waiting | done => exact hstay (by simp [Channel.step, hi])
  | submit i =>
    cases hi : s.clients i with
    | calling r => exact h.submit hs hi hev
    | outside | writing | written | waiting | done => exact hstay (by simp [Channel.step, hi])
  | poll i =>
    cases hi : s.clients i with
    | waiting t => exact h.poll hs hi
    | outside | writing | written | calling | done => exact hstay (by simp [Channel.step, Channel.poll, hi])
  | interrupt i =>
    cases hi : s.clients i with
    | waiting t => exact h.interrupt hs hi
    | outside | writing | written | calling | done => exact hstay (by simp [Channel.step, hi])
  | ret i =>
    cases hi : s.clients i with
    | done t => exact h.ret hs hi
    | outside | writing | written | calling | waiting => exact hstay (by simp [Channel.step, hi])
  | work => exact h.work hs
  | sigterm => exact h.sigterm hs hev
  | crash => exact h.crash hs (by_contra fun hne => hev hne)

omit [DecidableEq ι] in
theorem start_serial (pid : Int) (vm : V) :
    (Channel.start pid vm : Channel ι V).Sound ∧ (Channel.start pid vm : Channel ι V).Serial :=
  ⟨⟨by simp [Channel.start], by simp [Channel.start], fun _ => rfl, fun _ _ _ h => absurd h (ClientAt.not_carries (.inl rfl))⟩,
    .free (fun _ => id) rfl (.inl trivial) rfl rfl⟩

/-- **When no client submits or writes its text over another command, and the worker does not end before it has run its
command, every command is run exactly once, with its own arguments, and every call that returns returns its own answer.** -/
theorem exactlyOnce_of_uncontended (exec : CommandExec V) (pid : Int) (vm : V)
    {evs : List (ChannelEvent ι)} (h : Runs.Avoids (Channel.step exec) Channel.Contended (.start pid vm) evs) :
    Runs.Along (Channel.step exec) (Channel.ExactlyOnce exec) (.start pid vm) evs := by
  have hstep : ∀ (s : Channel ι V) e, s.Sound ∧ s.Serial → ¬ s.Contended e → (s.step exec e).Sound ∧ (s.step exec e).Serial :=
    fun _ _ hs he => hs.2.step hs.1 he
  exact (Runs.along_of_avoids hstep (start_serial pid vm) h).mono fun s hs => hs.2.exactlyOnce hs.1

end Steps

/-! ## Two clients -/

section Clients

instance (c : ClientAt) : Decidable c.Waits := by
  cases c <;> first | exact isTrue trivial | exact isFalse id

instance (c : ClientAt) : Decidable c.HoldsInput := by
  cases c <;> first | exact isTrue trivial | exact isFalse id | exact inferInstanceAs (Decidable (_ ≠ _))

instance (r : Request) (b : Nat → U8) : Decidable (r.Stale b) := by
  rcases r with _ | _ | _ | ⟨_ | _, _⟩ | _ | _ <;> first | exact isFalse id | exact inferInstanceAs (Decidable (_ ∧ _))

instance (c : ClientAt) (b : Nat → U8) : Decidable (c.Stale b) := by
  cases c <;> first | exact isFalse id | exact inferInstanceAs (Decidable (Request.Stale _ _))

instance (w : WorkerAt) : Decidable w.Looks := by
  cases w <;> first | exact isTrue trivial | exact isFalse id | exact inferInstanceAs (Decidable (_ = _))

instance (w : WorkerAt) : Decidable w.Left := by
  cases w <;> first | exact isTrue trivial | exact isFalse id

/-- Commands that write nothing back. -/
def silentExec : CommandExec Unit := fun _ _ _ _ v => (v, ⟨none, none, none⟩)

/-- One client types a text and is cancelled; when the worker has run its command, the other steps the machine, and the
worker is told to stop. -/
def twoCalls : List (ChannelEvent Bool) :=
  [.call false (.send .type ⟨[0x68, 0x69], by decide⟩), .write false, .enter false, .submit false, .work, .interrupt false, .work,
    .work, .work, .work, .call true (.step 5), .submit true, .work, .work, .sigterm, .work, .work, .work, .poll true, .ret true,
    .work, .work, .work, .crash]

/-- Both commands are run, and the call that is not cancelled returns. -/
theorem exactlyOnce_twoCalls :
    (twoCalls.foldl (Channel.step silentExec) (.start 1 ())).executions.map (fun e => (e.cmd, e.arg)) =
        [(.send, 0), (.step, 5)] ∧
      (twoCalls.foldl (Channel.step silentExec) (.start 1 ())).returns.map (fun r => r.ticket) = [1] ∧
      Runs.Along (Channel.step silentExec) (Channel.ExactlyOnce silentExec) (.start 1 ()) twoCalls := by
  refine ⟨by decide, by decide, exactlyOnce_of_uncontended silentExec 1 () ?_⟩
  unfold twoCalls
  simp only [Runs.avoids_cons, Runs.avoids_nil, Channel.Contended, Bool.exists_bool, not_false_eq_true, true_and, and_true]
  decide

/-- The second client writes its command between the worker's look at the slot and its read of the argument. -/
def overwritten : List (ChannelEvent Bool) :=
  [.call false (.step 5), .call true (.step 7), .submit false, .work, .submit true, .work, .work]

/-- **Two clients at once: the first client's command runs with the second's argument.** -/
theorem not_exactlyOnce_overwritten : ¬ ∀ evs : List (ChannelEvent Bool),
    Runs.Along (Channel.step silentExec) (Channel.ExactlyOnce silentExec) (.start 1 ()) evs := by
  intro hall
  have hexact := hall overwritten overwritten List.prefix_rfl
  obtain ⟨sub, hsub, hof⟩ := hexact.own ⟨0, .step, 7, 0, [], ⟨none, none, none⟩⟩ (List.mem_singleton.2 rfl)
  cases hsub
  exact absurd hof.arg (by decide)

/-- A client alone does the same to its own command, when it is cancelled and calls again. -/
example : ¬ ∀ evs : List (ChannelEvent Unit),
    Runs.Along (Channel.step silentExec) (Channel.ExactlyOnce silentExec) (.start 1 ()) evs := by
  intro hall
  have hexact := hall [.call () (.step 5), .submit (), .work, .interrupt (), .call () (.step 7), .submit (), .work, .work] _
    List.prefix_rfl
  obtain ⟨sub, hsub, hof⟩ := hexact.own ⟨0, .step, 7, 0, [], ⟨none, none, none⟩⟩ (List.mem_singleton.2 rfl)
  cases hsub
  exact absurd hof.arg (by decide)

end Clients

end PgLinux

