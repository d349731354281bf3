import PgLinux.Breakpoints
import PgLinux.Lib.Ring
/-!
# DebugRings — the slots of the diagnostic rings

Each log has a counter that is never reduced, and an entry goes to the slot `count % SIZE`, on `int`s.  A run is followed
with the slots it uses and with the number of entries behind each of them.
-/
namespace PgLinux

open Relation

/-! ## The rings -/

inductive DebugRing where
  | inst
  | trap
  | store
  | brk
  | console
  deriving DecidableEq

/-- DBG_INST_LOG_SIZE and its like. -/
def DebugRing.size : DebugRing → U32
  | .inst => 4096
  | .trap => 4096
  | .store => 64
  | .brk => 16
  | .console => 256

def DebugRing.InBounds (r : DebugRing) (slot : U32) : Prop := 0 ≤ slot.toInt ∧ slot.toInt < r.size.toInt

theorem DebugRing.size_pos (r : DebugRing) : 0 < r.size.toInt := by
  cases r <;> decide

theorem DebugRing.size_le (r : DebugRing) : r.size.toInt ≤ 4096 := by
  cases r <;> decide

/-- The counters; that of the transmit callback is kept beside the record. -/
def Dbg.count (d : Dbg) (console_log_count : U32) : DebugRing → U32
  | .inst => d.inst_log_idx
  | .trap => d.trap_log_count
  | .store => d.store_log_count
  | .brk => d.break_log_count
  | .console => console_log_count

/-- **The slot after `n` entries is one of the ring's up to `2 ^ 31` entries**, and then is one before its start. -/
theorem DebugRing.slot_inBounds {r : DebugRing} {n : Nat} (hn : n ≤ 2 ^ 31) :
    r.InBounds ((BitVec.ofNat 32 n).srem r.size) := by
  refine (Ring.srem_slot_iff r.size_pos).2 ?_
  by_cases hlt : n < 2 ^ 31
  · left
    rw [BitVec.toInt_ofNat', Int.bmod_eq_of_le (by omega) (by omega)]
    omega
  · right
    obtain rfl : n = 2 ^ 31 := by omega
    cases r <;> decide

theorem DebugRing.slot_negative (r : DebugRing) : ¬ r.InBounds ((BitVec.ofNat 32 (2 ^ 31 + 1)).srem r.size) := by
  unfold InBounds
  rw [Ring.srem_slot_iff r.size_pos]
  cases r <;> decide

/-! ## Readers -/

/-- Where a reader of the ring starts, `total` being the counter: vm_inst_log compares the other way round. -/
def DebugRing.start (r : DebugRing) (total : U32) : U32 :=
  match r with
  | .inst => if total.slt r.size then 0 else total.srem r.size
  | _ => if r.size.slt total then total.srem r.size else 0

/-- How many entries it returns. -/
def DebugRing.returned (r : DebugRing) (total : U32) : U32 :=
  match r with
  | .inst => if total.slt r.size then total else r.size
  | _ => if r.size.slt total then r.size else total

/-- The index of call `i`: vm_inst_log and vm_trap_log compute it on `int`s, the others with the unsigned `call_cntr`. -/
def DebugRing.readIndex (r : DebugRing) (total : U32) (i : U64) : U32 :=
  match r with
  | .inst | .trap => (r.start total + i.setWidth 32).srem r.size
  | _ => (((r.start total).signExtend 64 + i).umod (r.size.signExtend 64)).setWidth 32

/-- The calls made.  The others read the counter again at every call, so nothing ties it to `call_cntr`. -/
def DebugRing.Reads (r : DebugRing) (total : U32) (i : U64) : Prop :=
  match r with
  | .inst | .trap => (i.toNat : Int) < (r.returned total).toInt
  | _ => True

theorem DebugRing.start_inBounds (r : DebugRing) (total : U32) : r.InBounds (r.start total) := by
  have hzero : r.InBounds 0 := ⟨by simp, r.size_pos⟩
  have hwrapped (h : 0 ≤ total.toInt) : r.InBounds (total.srem r.size) := (Ring.srem_slot_iff r.size_pos).2 (.inl h)
  have hsize := r.size_pos
  cases r <;> unfold start <;> dsimp only <;> split <;>
    first
      | exact hzero
      | refine hwrapped ?_
        simp only [BitVec.slt, decide_eq_true_eq] at *
        omega

theorem DebugRing.returned_le (r : DebugRing) (total : U32) : (r.returned total).toInt ≤ r.size.toInt := by
  cases r <;> unfold returned <;> dsimp only <;> split <;> simp only [BitVec.slt, decide_eq_true_eq] at * <;> omega

theorem DebugRing.umod_inBounds (r : DebugRing) (x : U64) : r.InBounds ((x.umod (r.size.signExtend 64)).setWidth 32) := by
  have hlt : ((x.umod (r.size.signExtend 64)).toNat : Int) < r.size.toInt := by
    rw [BitVec.umod_eq, BitVec.toNat_umod]
    cases r <;> exact Int.ofNat_lt.2 (Nat.mod_lt _ (by decide))
  have hle := r.size_le
  unfold InBounds
  rw [BitVec.toInt_setWidth, Int.bmod_eq_of_le (by omega) (by omega)]
  exact ⟨by omega, hlt⟩

/-- **Readers stay in the ring**, whatever the counter says. -/
theorem DebugRing.readIndex_inBounds {r : DebugRing} {total : U32} {i : U64} (h : r.Reads total i) :
    r.InBounds (r.readIndex total i) := by
  obtain ⟨hstart, hlt⟩ := r.start_inBounds total
  have hreturned := r.returned_le total
  have hsum (hi : (i.toNat : Int) < (r.returned total).toInt) :
      r.InBounds ((r.start total + i.setWidth 32).srem r.size) := by
    have hle := r.size_le
    have hwidth : (i.setWidth 32).toInt = i.toNat := by
      rw [BitVec.toInt_setWidth, Int.bmod_eq_of_le (by omega) (by omega)]
    refine (Ring.srem_slot_iff r.size_pos).2 (.inl ?_)
    rw [BitVec.toInt_add, hwidth, Int.bmod_eq_of_le (by omega) (by omega)]
    omega
  cases r with
  | inst => exact hsum h
  | trap => exact hsum h
  | store => exact DebugRing.umod_inBounds _ _
  | brk => exact DebugRing.umod_inBounds _ _
  | console => exact DebugRing.umod_inBounds _ _

/-! ## Entries -/

/-- VM_CMD_WATCHPOINT. -/
def Cpu.setWatchpoint (cmdArg cmdArgExt : U64) (c : Cpu) : Cpu :=
  { c with dbg := { c.dbg with
    watch_addr := cmdArg
    watch_size := cmdArgExt.setWidth 32
    watch_active := cmdArg != 0
    store_log_count := 0
    store_log := fun _ => ⟨0, 0, 0, 0, 0⟩ } }

/-- What the machine logs. -/
inductive Entry where
  | insn (word : U32)
  | trap (cause tval : U64)
  | store (va : U64) (size : Nat) (val : U64)
  | brk

def Entry.ring : Entry → DebugRing
  | .insn _ => .inst
  | .trap _ _ => .trap
  | .store _ _ _ => .store
  | .brk => .brk

def Entry.run (c : Cpu) : Entry → Cpu
  | .insn word => logInsn word c
  | .trap cause tval => c.logTrap cause tval
  | .store va size val => logStore va size val c
  | .brk => checkBreak c

/-- An entry is made. -/
def Entry.Logged (e : Entry) (c : Cpu) : Prop := (e.run c).dbg.count 0 e.ring ≠ c.dbg.count 0 e.ring

/-- **An entry that is made counts for its ring alone**, and a trap's slot is remembered. -/
theorem Entry.run_cases (e : Entry) (c : Cpu) :
    e.run c = c ∨ (∀ k, (e.run c).dbg.count k = Function.update (c.dbg.count k) e.ring (c.dbg.count k e.ring + 1)) ∧
      (e.run c).dbg.trap_log_last_slot =
        if e.ring = .trap then c.dbg.trap_log_count.srem 4096 else c.dbg.trap_log_last_slot := by
  unfold run
  cases e with
  | insn word =>
    refine .inr ⟨fun k => funext fun r => ?_, rfl⟩
    cases r <;> rfl
  | trap cause tval =>
    dsimp only
    unfold Cpu.logTrap
    split
    · refine .inr ⟨fun k => funext fun r => ?_, rfl⟩
      cases r <;> rfl
    · exact .inl rfl
  | store va size val =>
    dsimp only
    unfold logStore
    split
    · refine .inr ⟨fun k => funext fun r => ?_, rfl⟩
      cases r <;> rfl
    · exact .inl rfl
  | brk =>
    dsimp only
    unfold checkBreak
    split
    · refine .inr ⟨fun k => funext fun r => ?_, rfl⟩
      cases r <;> rfl
    · exact .inl rfl

/-- **An entry writes its log at the slot of its counter**, and nothing else of the logs. -/
theorem Entry.run_elsewhere (e : Entry) (c : Cpu) {slot : U32} (h : slot ≠ (c.dbg.count 0 e.ring).srem e.ring.size) :
    (e.run c).dbg.inst_log slot = c.dbg.inst_log slot ∧ (e.run c).dbg.trap_log slot = c.dbg.trap_log slot ∧
      (e.run c).dbg.store_log slot = c.dbg.store_log slot ∧ (e.run c).dbg.break_log slot = c.dbg.break_log slot := by
  cases e with
  | insn word => exact ⟨if_neg h, rfl, rfl, rfl⟩
  | trap cause tval =>
    unfold run
    dsimp only
    unfold Cpu.logTrap
    split
    · exact ⟨rfl, if_neg h, rfl, rfl⟩
    · exact ⟨rfl, rfl, rfl, rfl⟩
  | store va size val =>
    unfold run
    dsimp only
    unfold logStore
    split
    · exact ⟨rfl, rfl, if_neg h, rfl⟩
    · exact ⟨rfl, rfl, rfl, rfl⟩
  | brk =>
    unfold run
    dsimp only
    unfold checkBreak
    split
    · exact ⟨rfl, rfl, rfl, if_neg h⟩
    · exact ⟨rfl, rfl, rfl, rfl⟩

/-! ## What is followed -/

/-- An entry and the slot it goes to; `nth` counts those of its ring before it. -/
structure Push where
  ring : DebugRing
  slot : U32
  nth : Nat

/-- A machine, the transmit callback's counter and the slots used so far. -/
structure RingState where
  cpu : Cpu
  console_log_count : U32
  nth : DebugRing → Nat
  pushes : List Push
  backfills : List U32

def RingState.init (c : Cpu) : RingState := ⟨c, 0, fun _ => 0, [], []⟩

def RingState.counter (s : RingState) : DebugRing → U32 := s.cpu.dbg.count s.console_log_count

/-- An entry of ring `r` leaves the machine `c` and the callback's counter `k`. -/
def RingState.push (s : RingState) (r : DebugRing) (c : Cpu) (k : U32) : RingState :=
  { s with
    cpu := c
    console_log_count := k
    nth := Function.update s.nth r (s.nth r + 1)
    pushes := s.pushes ++ [⟨r, (s.counter r).srem r.size, s.nth r⟩] }

/-- pg_uart_tx, with a VM: newlines are logged. -/
def RingState.transmit (s : RingState) (ch : U8) : RingState :=
  if ch = 0x0A then s.push .console s.cpu (s.console_log_count + 1) else s

/-- The machine logs something, or does something else. -/
inductive LogStep : RingState → RingState → Prop
  | entry (s : RingState) (e : Entry) (h : e.Logged s.cpu) : LogStep s (s.push e.ring (e.run s.cpu) s.console_log_count)
  | backfill (s : RingState) (h : (0 : U32).slt s.cpu.dbg.trap_log_count) : LogStep s
    { s with cpu := backfill 0 s.cpu, backfills := s.backfills ++ [s.cpu.dbg.trap_log_last_slot] }
  | halt (s : RingState) (b : Bool) : LogStep s
    { s with cpu := { s.cpu with dbg := { s.cpu.dbg with debug_halt := b } } }
  | quiet (s : RingState) (c : Cpu) (h : c.dbg = s.cpu.dbg) : LogStep s { s with cpu := c }

/-! ## The count behind the counters -/

/-- The counters are those numbers of entries, on 32 bits; each entry went to the slot of its number, after those before
it; SRET finds a slot of the ring whenever the counter says that there is one. -/
structure RingsCounted (s : RingState) : Prop where
  counter : ∀ r, s.counter r = BitVec.ofNat 32 (s.nth r)
  slot : ∀ p ∈ s.pushes, p.slot = (BitVec.ofNat 32 p.nth).srem p.ring.size
  made : ∀ r n, n < s.nth r → ∃ p ∈ s.pushes, p.ring = r ∧ p.nth = n
  before : ∀ p ∈ s.pushes, ∀ n < p.nth, ∃ q ∈ s.pushes, q.ring = p.ring ∧ q.nth = n
  last : (0 : U32).slt s.cpu.dbg.trap_log_count → DebugRing.trap.InBounds s.cpu.dbg.trap_log_last_slot
  backfills : ∀ slot ∈ s.backfills, DebugRing.trap.InBounds slot

theorem RingsCounted.push {s : RingState} (h : RingsCounted s) {r : DebugRing} {c : Cpu} {k : U32}
    (hcount : c.dbg.count k = Function.update s.counter r (s.counter r + 1))
    (hlast : (0 : U32).slt c.dbg.trap_log_count → DebugRing.trap.InBounds c.dbg.trap_log_last_slot) :
    RingsCounted (s.push r c k) where
  counter i := by
    show c.dbg.count k i = BitVec.ofNat 32 (Function.update s.nth r (s.nth r + 1) i)
    rw [hcount]
    by_cases hi : i = r
    · subst hi
      simp [h.counter, BitVec.ofNat_add]
    · simp [hi, h.counter]
  slot p hp := by
    simp only [RingState.push, List.mem_append, List.mem_singleton] at hp
    obtain hp | rfl := hp
    · exact h.slot p hp
    · rw [h.counter]
  made i n hn := by
    simp only [RingState.push, List.mem_append, List.mem_singleton] at hn ⊢
    by_cases hi : i = r
    · subst hi
      rw [Function.update_self] at hn
      by_cases hlast : n = s.nth i
      · exact ⟨_, .inr rfl, rfl, hlast.symm⟩
      · obtain ⟨p, hp, hpr⟩ := h.made i n (by omega)
        exact ⟨p, .inl hp, hpr⟩
    · rw [Function.update_of_ne hi] at hn
      obtain ⟨p, hp, hpr⟩ := h.made i n hn
      exact ⟨p, .inl hp, hpr⟩
  before p hp n hn := by
    simp only [RingState.push, List.mem_append, List.mem_singleton] at hp ⊢
    obtain hp | rfl := hp
    · obtain ⟨q, hq, hqr⟩ := h.before p hp n hn
      exact ⟨q, .inl hq, hqr⟩
    · obtain ⟨q, hq, hqr⟩ := h.made r n hn
      exact ⟨q, .inl hq, hqr⟩
  last := hlast
  backfills := h.backfills

/-- What leaves the trap log and the counters alone. -/
theorem RingsCounted.keep {s : RingState} (h : RingsCounted s) {c : Cpu} (hcount : c.dbg.count = s.cpu.dbg.count)
    (hlast : c.dbg.trap_log_last_slot = s.cpu.dbg.trap_log_last_slot) : RingsCounted { s with cpu := c } where
  counter r := by
    rw [← h.counter r]
    unfold RingState.counter
    rw [hcount]
  slot := h.slot
  made := h.made
  before := h.before
  last := by
    have htrap : c.dbg.trap_log_count = s.cpu.dbg.trap_log_count := congrFun (congrFun hcount 0) .trap
    rw [htrap, hlast]
    exact h.last
  backfills := h.backfills

/-- A command empties ring `r`. -/
theorem RingsCounted.empty {s : RingState} (h : RingsCounted s) {r : DebugRing} {c : Cpu}
    (hcount : ∀ k, c.dbg.count k = Function.update (s.cpu.dbg.count k) r 0) (hr : r ≠ .trap)
    (hlast : c.dbg.trap_log_last_slot = s.cpu.dbg.trap_log_last_slot) :
    RingsCounted { s with cpu := c, nth := Function.update s.nth r 0 } where
  counter i := by
    show c.dbg.count _ i = BitVec.ofNat 32 (Function.update s.nth r 0 i)
    rw [hcount]
    by_cases hi : i = r
    · simp [hi]
    · rw [Function.update_of_ne hi, Function.update_of_ne hi]
      exact h.counter i
  slot := h.slot
  made i n hn := by
    by_cases hi : i = r
    · simp [hi] at hn
    · exact h.made i n (by simpa [hi] using hn)
  before := h.before
  last := by
    have htrap : c.dbg.trap_log_count = s.cpu.dbg.trap_log_count := by
      have := congrFun (hcount 0) .trap
      rwa [Function.update_of_ne hr.symm] at this
    rw [htrap, hlast]
    exact h.last
  backfills := h.backfills

/-- A counter that is positive after an entry was not negative before. -/
theorem slt_of_slt_succ {n : U32} (h : (0 : U32).slt (n + 1)) : 0 ≤ n.toInt := by
  by_contra hneg
  have hlow := BitVec.le_toInt n
  simp only [BitVec.slt, BitVec.toInt_add, decide_eq_true_eq] at h
  rw [Int.bmod_eq_of_le (by simp; omega) (by simp; omega)] at h
  simp at h
  omega

theorem RingsCounted.entry {s : RingState} (h : RingsCounted s) (e : Entry) (he : e.Logged s.cpu) :
    RingsCounted (s.push e.ring (e.run s.cpu) s.console_log_count) := by
  obtain hsame | ⟨hcount, hlast⟩ := e.run_cases s.cpu
  · exact absurd (by rw [hsame]) he
  refine h.push (hcount s.console_log_count) fun hpos => ?_
  have htrap : (e.run s.cpu).dbg.trap_log_count =
      Function.update (s.cpu.dbg.count 0) e.ring (s.cpu.dbg.count 0 e.ring + 1) .trap := congrFun (hcount 0) .trap
  rw [htrap] at hpos
  rw [hlast]
  by_cases hring : e.ring = .trap
  · rw [hring, Function.update_self] at hpos
    rw [if_pos hring]
    exact (Ring.srem_slot_iff DebugRing.trap.size_pos).2 (.inl (slt_of_slt_succ hpos))
  · rw [Function.update_of_ne (Ne.symm hring)] at hpos
    rw [if_neg hring]
    exact h.last hpos

theorem RingsCounted.transmit {s : RingState} (h : RingsCounted s) (ch : U8) : RingsCounted (s.transmit ch) := by
  unfold RingState.transmit
  split
  · refine h.push ?_ h.last
    funext r
    cases r <;> rfl
  · exact h

theorem RingsCounted.log {s t : RingState} (h : RingsCounted s) (hlog : LogStep s t) : RingsCounted t := by
  cases hlog with
  | entry e he => exact h.entry e he
  | halt b => exact h.keep rfl rfl
  | quiet c hc => exact h.keep (by rw [hc]) (by rw [hc])
  | backfill hpos =>
    have hdbg : (backfill 0 s.cpu).dbg.count = s.cpu.dbg.count ∧
        (backfill 0 s.cpu).dbg.trap_log_last_slot = s.cpu.dbg.trap_log_last_slot := by
      unfold PgLinux.backfill
      split <;> exact ⟨rfl, rfl⟩
    refine { h.keep hdbg.1 hdbg.2 with backfills := fun slot hslot => ?_ }
    rcases List.mem_append.1 hslot with hold | hnew
    · exact h.backfills slot hold
    · rw [List.mem_singleton.1 hnew]
      exact h.last hpos

theorem RingsCounted.logs {s t : RingState} (h : RingsCounted s) (hlogs : ReflTransGen LogStep s t) : RingsCounted t := by
  induction hlogs with
  | refl => exact h
  | tail _ hlog ih => exact ih.log hlog

theorem RingsCounted.transmits {s : RingState} (h : RingsCounted s) (out : List U8) :
    RingsCounted (out.foldl RingState.transmit s) := by
  induction out generalizing s with
  | nil => exact h
  | cons ch out ih => exact ih (h.transmit ch)

theorem ringsCounted_init (ram : Mem) (ramSize : U64) : RingsCounted (.init (rv64Init ram ramSize)) where
  counter r := by cases r <;> rfl
  slot _ hp := nomatch hp
  made _ n hn := absurd hn (by simp [RingState.init])
  before _ hp := nomatch hp
  last h := absurd h (by simp [RingState.init, rv64Init, Dbg.zero])
  backfills _ h := nomatch h

/-! ## Machines that can be followed -/

def CanLog (c c' : Cpu) : Prop := ∀ s : RingState, s.cpu = c → ∃ t, ReflTransGen LogStep s t ∧ t.cpu = c'

instance : IsPreorder Cpu CanLog where
  refl _ s hs := ⟨s, .refl, hs⟩
  trans _ _ _ h h' s hs := by
    obtain ⟨t, ht, htc⟩ := h s hs
    obtain ⟨u, hu, huc⟩ := h' t htc
    exact ⟨u, ht.trans hu, huc⟩

theorem canLog_quiet {c c' : Cpu} (h : c'.dbg = c.dbg) : CanLog c c' := by
  rintro s rfl
  exact ⟨_, .single (.quiet s c' h), rfl⟩

theorem canLog_entry (e : Entry) (c : Cpu) : CanLog c (e.run c) := by
  rintro s rfl
  obtain hsame | ⟨hcount, -⟩ := e.run_cases s.cpu
  · rw [hsame]
    exact ⟨s, .refl, rfl⟩
  · have hlogged : e.Logged s.cpu := by simp [Entry.Logged, hcount]
    exact ⟨_, .single (.entry s e hlogged), rfl⟩

theorem canLog_rules : LogRules CanLog where
  quiet := canLog_quiet
  store va size val := canLog_entry (.store va size val)
  trap c cause tval := canLog_entry (.trap cause tval) c
  insn word := canLog_entry (.insn word)
  backfill spp c := by
    by_cases h : spp = 0 ∧ (0 : U32).slt c.dbg.trap_log_count
    · rintro s rfl
      obtain ⟨rfl, hpos⟩ := h
      exact ⟨_, .single (.backfill s hpos), rfl⟩
    · unfold PgLinux.backfill
      rw [if_neg h]
      exact canLog_quiet rfl

theorem transmits_cpu (s : RingState) (out : List U8) : (out.foldl RingState.transmit s).cpu = s.cpu := by
  induction out generalizing s with
  | nil => rfl
  | cons ch out ih =>
    rw [List.foldl_cons, ih]
    unfold RingState.transmit
    split <;> rfl

/-! ## Runs -/

section Runs

variable [NetDevice] [HostFp]

/-- A move, whose output is then transmitted; the commands that empty a ring; and what else the worker does, a resumption
among it, which goes on with the counters of the image. -/
inductive RingStep : RingState → RingState → Prop
  | move {s t : RingState} (m : Move) (hlogs : ReflTransGen LogStep s t) (hmove : t.cpu = m.run s.cpu) :
    RingStep s ((t.cpu.bus.console.drop s.cpu.bus.console.length).foldl RingState.transmit t)
  | watchpoint (s : RingState) (cmdArg cmdArgExt : U64) : RingStep s
    { s with cpu := s.cpu.setWatchpoint cmdArg cmdArgExt, nth := Function.update s.nth .store 0 }
  | breakpoint (s : RingState) (cmdArg cmdArgExt : U64) : RingStep s
    { s with cpu := s.cpu.setBreakpoint cmdArg cmdArgExt, nth := Function.update s.nth .brk 0 }
  | other (s : RingState) (c : Cpu) (h : c.dbg = s.cpu.dbg) : RingStep s { s with cpu := c }

abbrev RingRun : RingState → RingState → Prop := ReflTransGen RingStep

theorem RingsCounted.step {s t : RingState} (h : RingsCounted s) (hstep : RingStep s t) : RingsCounted t := by
  cases hstep with
  | move _ hlogs => exact (h.logs hlogs).transmits _
  | watchpoint a x =>
    refine h.empty (fun k => funext fun r => ?_) (by decide) rfl
    cases r <;> rfl
  | breakpoint a x =>
    refine h.empty (fun k => funext fun r => ?_) (by decide) rfl
    cases r <;> rfl
  | other c hc => exact h.keep (by rw [hc]) (by rw [hc])

theorem ringsCounted_run {ram : Mem} {ramSize : U64} {t : RingState} (h : RingRun (.init (rv64Init ram ramSize)) t) :
    RingsCounted t := by
  induction h with
  | refl => exact ringsCounted_init ram ramSize
  | tail _ hstep ih => exact ih.step hstep

theorem exists_move (s : RingState) (m : Move) : ∃ t, RingStep s t ∧ t.cpu = m.run s.cpu := by
  have hhalt (c : Cpu) (b : Bool) : CanLog c { c with dbg := { c.dbg with debug_halt := b } } := by
    rintro s rfl
    exact ⟨_, .single (.halt s b), rfl⟩
  obtain ⟨t, hlogs, hmove⟩ := canLog_rules.move (canLog_entry .brk) hhalt s.cpu m s rfl
  exact ⟨_, .move m hlogs hmove, (transmits_cpu t _).trans hmove⟩

theorem exists_steps (n : Nat) (s : RingState) : ∃ t, RingRun s t ∧ t.cpu = stepTimes n s.cpu := by
  induction n generalizing s with
  | zero => exact ⟨s, .refl, rfl⟩
  | succ n ih =>
    obtain ⟨t, hstep, ht⟩ := exists_move s .step
    obtain ⟨u, hrun, hu⟩ := ih t
    rw [ht] at hu
    exact ⟨u, .head hstep hrun, hu⟩

/-! ## The theorem -/

/-- Every index computed from a counter, so far and by a reader of the state. -/
structure RingState.IndexesInBounds (t : RingState) : Prop where
  pushes : ∀ p ∈ t.pushes, p.ring.InBounds p.slot
  backfills : ∀ slot ∈ t.backfills, DebugRing.trap.InBounds slot
  reads : ∀ (r : DebugRing) (i : U64), r.Reads (t.counter r) i → r.InBounds (r.readIndex (t.counter r) i)

/-- **Every index is in its ring exactly when each ring has taken at most `2 ^ 31 + 1` entries since it was empty.** -/
theorem indexesInBounds_iff {ram : Mem} {ramSize : U64} {t : RingState} (h : RingRun (.init (rv64Init ram ramSize)) t) :
    t.IndexesInBounds ↔ ∀ p ∈ t.pushes, p.nth ≤ 2 ^ 31 := by
  have hcounted := ringsCounted_run h
  constructor
  · intro hbounds p hp
    by_contra hlate
    have hnext : ∃ q ∈ t.pushes, q.nth = 2 ^ 31 + 1 := by
      by_cases hp1 : p.nth = 2 ^ 31 + 1
      · exact ⟨p, hp, hp1⟩
      · obtain ⟨q, hq, -, hn⟩ := hcounted.before p hp (2 ^ 31 + 1) (by omega)
        exact ⟨q, hq, hn⟩
    obtain ⟨q, hq, hn⟩ := hnext
    have hslot := hbounds.pushes q hq
    rw [hcounted.slot q hq, hn] at hslot
    exact q.ring.slot_negative hslot
  · intro hfew
    refine ⟨fun p hp => ?_, hcounted.backfills, fun r i => DebugRing.readIndex_inBounds⟩
    rw [hcounted.slot p hp]
    exact DebugRing.slot_inBounds (hfew p hp)

end Runs

/-! ## A loop that fills the instruction log -/

section Instances

local instance debugRingsNet : NetDevice := NetDevice.silent
local instance debugRingsFp : HostFp := HostFp.zero

/-- JAL x0, 0. -/
def spinRam : Mem := programAt [0x0000006F] 0 fun _ => 0

/-- The machine that has spun for a while. -/
def spinning (x : BitVec 5 → U64) (d : Dbg) (n y : U64) : Cpu :=
  { rv64Init spinRam 0x1000 with x := x, dbg := d, instret := n, cycle := y }

theorem spinning_step {x : BitVec 5 → U64} {d : Dbg} {n y : U64} (h : d.break_active = false) :
    rv64Step (spinning x d n y) =
      spinning (setAt (setAt x 0 (ramBase + 4)) 0 0) (logInsn 0x6F (spinning x d n y)).dbg (n + 1) (y + 1) := by
  have hbreak : checkBreak (spinning x d n y) = spinning x d n y := if_neg (by simp [spinning, h])
  have hmiss : loadFast (spinning x d n y) ramBase 4 .exec = none := rfl
  have hmem : (spinRam.read (ramBase - ramBase) 4).setWidth 32 = (0x6F : U32) := by
    rw [BitVec.sub_self]
    exact Mem.read_word _ 0 0x6F
  have hfetch : Fetches (spinning x d n y) 0x6F 0x6F (spinning x d n y) :=
    fetches_word rfl hbreak (rv64Translate_machine rfl _ .exec) hmiss (show crossesPage ramBase 4 = false by decide)
      (show inRam 0x1000 ramBase = true by decide) hmem (by decide)
  exact hfetch.rv64Step_ok rfl

/-- **Every turn of the loop counts one entry.** -/
theorem spinning_counts (k : Nat) {x : BitVec 5 → U64} {d : Dbg} {n y : U64} (h : d.break_active = false) :
    (stepTimes k (spinning x d n y)).dbg.inst_log_idx = d.inst_log_idx + BitVec.ofNat 32 k := by
  induction k generalizing x d n y with
  | zero => simp [stepTimes, spinning]
  | succ k ih =>
    have hd : (logInsn 0x6F (spinning x d n y)).dbg.break_active = false := h
    rw [stepTimes, spinning_step h, ih hd]
    show d.inst_log_idx + 1 + BitVec.ofNat 32 k = d.inst_log_idx + BitVec.ofNat 32 (k + 1)
    rw [Nat.add_comm, BitVec.ofNat_add, BitVec.add_assoc]
    rfl

/-- The loop goes on for as long as one likes. -/
theorem exists_spun (k : Nat) :
    ∃ t, RingRun (.init (rv64Init spinRam 0x1000)) t ∧ t.counter .inst = BitVec.ofNat 32 k := by
  obtain ⟨t, hrun, hcpu⟩ := exists_steps k (.init (rv64Init spinRam 0x1000))
  have hidx := spinning_counts k (x := fun _ => 0) (d := .zero) (n := 0) (y := 0) rfl
  refine ⟨t, hrun, ?_⟩
  show t.cpu.dbg.inst_log_idx = _
  rw [hcpu]
  exact hidx.trans (BitVec.zero_add _)

/-- Two turns of the loop. -/
theorem indexesInBounds_spun : ∃ t, RingRun (.init (rv64Init spinRam 0x1000)) t ∧ t.counter .inst = 2 ∧
    (t.IndexesInBounds ↔ ∀ p ∈ t.pushes, p.nth ≤ 2 ^ 31) := by
  obtain ⟨t, hrun, hcount⟩ := exists_spun 2
  exact ⟨t, hrun, hcount, indexesInBounds_iff hrun⟩

/-- **A loop that has run `2 ^ 31 + 2` instructions has logged one before the start of the ring.** -/
theorem not_indexesInBounds : ¬ ∀ (ram : Mem) (ramSize : U64) (t : RingState),
    RingRun (.init (rv64Init ram ramSize)) t → t.IndexesInBounds := by
  intro hall
  obtain ⟨t, hrun, hcount⟩ := exists_spun (2 ^ 31 + 2)
  have hcounted := ringsCounted_run hrun
  have hnth : t.nth .inst % 2 ^ 32 = 2 ^ 31 + 2 := by
    have hword := congrArg BitVec.toNat ((hcounted.counter .inst).symm.trans hcount)
    simpa using hword
  obtain ⟨p, hp, hring, hn⟩ := hcounted.made .inst (2 ^ 31 + 1) (by omega)
  have hslot := (hall spinRam 0x1000 t hrun).pushes p hp
  rw [hcounted.slot p hp, hn] at hslot
  exact p.ring.slot_negative hslot

end Instances

end PgLinux
