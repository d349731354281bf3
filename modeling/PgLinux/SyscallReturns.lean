import PgLinux.Breakpoints
import PgLinux.FaultAddress
import PgLinux.Lib.CallLog
import PgLinux.TrapReturn
/-!
# SyscallReturns — the trap log and the SRETs that fill it in

An exception makes an entry and its slot is remembered; an SRET to user mode writes a0 and its target there.  Beside the
machine stands a ledger of its traps: which of them have not been returned from, innermost first, and whose each entry is.
-/
namespace PgLinux

open Prog CallLog

/-! ## Where the trap log changes -/

/-- The trap log is left alone. -/
structure SameTraps (c c' : Cpu) : Prop where
  log : c'.dbg.trap_log = c.dbg.trap_log
  count : c'.dbg.trap_log_count = c.dbg.trap_log_count
  last : c'.dbg.trap_log_last_slot = c.dbg.trap_log_last_slot

instance : IsPreorder Cpu SameTraps where
  refl _ := ⟨rfl, rfl, rfl⟩
  trans _ _ _ h h' := ⟨h'.log.trans h.log, h'.count.trans h.count, h'.last.trans h.last⟩

theorem sameTraps_of_dbg {c c' : Cpu} (h : c'.dbg = c.dbg) : SameTraps c c' := by
  constructor <;> rw [h]

/-- A trap of a machine with the same log. -/
def Trapped (c c' : Cpu) : Prop := ∃ d cause tval, SameTraps c d ∧ c' = trap d cause tval

theorem Trapped.after {c d e : Cpu} (h : Trapped d e) (hsame : SameTraps c d) : Trapped c e := by
  obtain ⟨m, cause, tval, hm, rfl⟩ := h
  exact ⟨m, cause, tval, trans_of SameTraps hsame hm, rfl⟩

theorem trapped_trap (c : Cpu) (cause tval : U64) : Trapped c (trap c cause tval) :=
  ⟨c, cause, tval, refl_of SameTraps c, rfl⟩

theorem sameTraps_checkBreak (c : Cpu) : SameTraps c (checkBreak c) := by
  unfold checkBreak
  split <;> exact ⟨rfl, rfl, rfl⟩

theorem sameTraps_logStore (va : U64) (size : Nat) (val : U64) (c : Cpu) : SameTraps c (logStore va size val c) := by
  unfold logStore
  split <;> exact ⟨rfl, rfl, rfl⟩

section Parts

variable [NetDevice]

theorem sameTraps_translate (va : U64) (access : AccessType) : Leads SameTraps (rv64Translate va access) :=
  leads_rv64Translate (.of_any fun _ _ => ⟨rfl, rfl, rfl⟩) (fun _ _ _ _ _ _ _ _ => ⟨rfl, rfl, rfl⟩) va access

/-- **What an instruction is made of leaves the trap log alone**, and traps once at most, at its end. -/
theorem sameTraps_ends : ExecEnds SameTraps Trapped where
  wr _ _ _ := ⟨rfl, rfl, rfl⟩
  load := leads_rv64CpuLoad (.of_any fun _ _ => ⟨rfl, rfl, rfl⟩) sameTraps_translate
  trap := trapped_trap
  jitFlush _ := ⟨rfl, rfl, rfl⟩
  after hsame h := h.after hsame
  reserve _ _ := ⟨rfl, rfl, rfl⟩
  store va size val := leads_bind (leads_modify (sameTraps_logStore va size val)) fun _ =>
    leads_storeAt (.of_any fun _ _ => ⟨rfl, rfl, rfl⟩) sameTraps_translate va size val

theorem sameTraps_poll (c : Cpu) : SameTraps c (pollNet (updateMip c)) := by
  unfold pollNet
  split <;> exact ⟨rfl, rfl, rfl⟩

/-- An interrupt that is taken wakes the hart. -/
theorem checkInterrupts_traps (c : Cpu) : (∃ d, checkInterrupts c = (d, false) ∧ SameTraps c d) ∨
    ∃ d, checkInterrupts c = ({ d with halted := false }, true) ∧ Trapped c d := by
  unfold checkInterrupts
  dsimp only
  split
  next cause _ => exact .inr ⟨_, rfl, (trapped_trap _ cause 0).after (sameTraps_poll c)⟩
  · exact .inl ⟨_, rfl, sameTraps_poll c⟩

variable [HostFp]

theorem sameTraps_fp (insn : U32) (c : Cpu) : FpEnds SameTraps Trapped c (rv64FpExec insn c) := by
  refine sameTraps_ends.rv64FpExec (fun _ => sameTraps_ends.store) (fun _ => ⟨rfl, rfl, rfl⟩) (fun _ _ => ⟨rfl, rfl, rfl⟩)
    fun d hd => ?_
  obtain ⟨x, f, rfl⟩ := fpCompute_regs _ _ d hd
  exact ⟨rfl, rfl, rfl⟩

theorem sameTraps_execInsn {insn : U32} (hret : ¬ IsReturn insn) (pc nextPc : U64) :
    Ends SameTraps Trapped (execInsn insn pc nextPc) := by
  have hsystem : Ends SameTraps Trapped (execSystem insn nextPc) :=
    sameTraps_ends.execSystem (fun h => absurd h hret) (fun _ => ⟨rfl, rfl, rfl⟩) (fun _ => ⟨rfl, rfl, rfl⟩) nextPc
  have hcsr : Ends SameTraps Trapped (execCsr insn nextPc) :=
    sameTraps_ends.execCsr (fun csr val c => sameTraps_of_dbg (csrWriteChecked_dbg csr val c)) insn nextPc
  exact sameTraps_ends.execInsn (fun _ => sameTraps_ends.execStore insn nextPc)
    (fun _ => sameTraps_ends.execAmo insn nextPc) (fun _ => sameTraps_fp insn) (fun _ => ends_ite hsystem hcsr) pc

/-- What an instruction that is done has done to the trap log. -/
inductive InsnDone (insn : U32) (c : Cpu) (next : U64) (d : Cpu) : Prop where
  | mret (hinsn : insn = 0x30200073) (hd : d = PgLinux.mret c)
  | sret (hinsn : insn = 0x10200073) (hnext : next = c.csr.sepc) (hd : d = PgLinux.sret c)
  | other (hret : ¬ IsReturn insn) (hd : SameTraps c d)

theorem execInsn_return (toS : Bool) (pc nextPc : U64) (c : Cpu) : execInsn (xret toS) pc nextPc c =
    (if c.priv < (if toS then privS else privM) then illegal (xret toS) else do
      set (if toS then PgLinux.sret c else PgLinux.mret c)
      return if toS then c.csr.sepc else c.csr.mepc : Exec U64) c := by
  cases toS <;> rfl

/-- **An instruction is done, or it has trapped.** -/
theorem execInsn_done (insn : U32) (pc nextPc : U64) (c : Cpu) :
    (∃ next d, execInsn insn pc nextPc c = .ok next d ∧ InsnDone insn c next d) ∨
      ∃ d, execInsn insn pc nextPc c = .error () d ∧ Trapped c d := by
  by_cases hret : IsReturn insn
  · obtain ⟨toS, rfl⟩ : ∃ toS, insn = xret toS := hret.elim (⟨false, ·⟩) (⟨true, ·⟩)
    rw [execInsn_return]
    by_cases hpriv : c.priv < if toS then privS else privM
    · rw [if_pos hpriv]
      exact .inr ⟨_, rfl, trapped_trap c _ _⟩
    · rw [if_neg hpriv]
      cases toS with
      | false => exact .inl ⟨_, _, rfl, .mret rfl rfl⟩
      | true => exact .inl ⟨_, _, rfl, .sret rfl rfl rfl⟩
  · have hends := sameTraps_execInsn hret pc nextPc c
    cases h : execInsn insn pc nextPc c with
    | ok next d =>
      rw [h] at hends
      exact .inl ⟨next, d, rfl, .other hret hends⟩
    | error e d =>
      rw [h] at hends
      exact .inr ⟨d, rfl, hends⟩

/-- The instruction that a step fetches. -/
def Cpu.executed (c : Cpu) : Option U32 :=
  match fetchInsn c.pc (checkBreak c) with
  | .ok word d => answer (expandInsn word (logInsn word d))
  | .error _ _ => none

/-- **A step executes an instruction, or traps.** -/
theorem stepBody_done (c : Cpu) : (∃ d, stepBody c = .error () d ∧ Trapped c d) ∨
    ∃ insn m next d, c.executed = some insn ∧ SameTraps c m ∧ InsnDone insn m next d ∧
      stepBody c = .ok () (retire next d) := by
  have hfetch := sameTraps_ends.fetchInsn c.pc (checkBreak c)
  unfold Cpu.executed
  rw [stepBody_eq]
  cases hf : fetchInsn c.pc (checkBreak c) with
  | error e d =>
    rw [hf] at hfetch
    exact .inl ⟨d, rfl, hfetch.after (sameTraps_checkBreak c)⟩
  | ok word d =>
    rw [hf] at hfetch
    have hlog : SameTraps d (logInsn word d) := ⟨rfl, rfl, rfl⟩
    have hm := trans_of SameTraps (trans_of SameTraps (sameTraps_checkBreak c) hfetch) hlog
    dsimp only
    unfold afterFetch
    rcases expandInsn_cases word with ⟨insn, he⟩ | he <;> rw [he]
    · rcases execInsn_done insn c.pc (c.pc + insnBytes (isCompressed word)) (logInsn word d) with
        ⟨next, e, hexec, hdone⟩ | ⟨e, hexec, htrap⟩
      · exact .inr ⟨insn, _, next, e, rfl, hm, hdone, bind_of_ok hexec⟩
      · refine .inl ⟨e, ?_, htrap.after hm⟩
        rw [pure_bind, bind_of_error hexec]
    · exact .inl ⟨_, rfl, (trapped_trap _ _ _).after hm⟩

end Parts

/-! ## The ledger of the traps -/

/-- A trap is a call, logged with its cause; a return to user mode by SRET fills in a0 and where it goes. -/
abbrev TrapEvent := Event U64 (U64 × U64)

abbrev TrapLedger := Ledger U32 U64 (U64 × U64)

/-- Interrupts and supervisor calls are not logged. -/
def loggedCause (cause : U64) : Option U64 := if !cause.msb && cause != excEcallS then some cause else none

def trapSlot (n : Nat) : U32 := (BitVec.ofNat 32 n).srem 4096

/-- `trap_log_count > 0` after `n` entries. -/
def trapLive (n : Nat) : Bool := (0 : U32).slt (BitVec.ofNat 32 n)

/-- The return fields. -/
def TrapLog.returned (t : TrapLog) : U64 × U64 := (t.ret_a0, t.ret_pc)

/-- What the return fields of an entry are. -/
def entryReturned (e : CallLog.Entry U64 (U64 × U64)) : U64 × U64 := e.fill.elim (0, 0) Fill.value

/-- The log is the ledger's. -/
structure LogAgrees (c : Cpu) (l : TrapLedger) : Prop where
  count : c.dbg.trap_log_count = BitVec.ofNat 32 l.log.length
  last : l.log ≠ [] → c.dbg.trap_log_last_slot = trapSlot (l.log.length - 1)
  free : ∀ i, l.cell i = none → (c.dbg.trap_log i).returned = (0, 0)
  entry : ∀ i e, l.cell i = some e → (c.dbg.trap_log i).cause = e.what ∧ (c.dbg.trap_log i).returned = entryReturned e

theorem LogAgrees.kept {c c' : Cpu} {l : TrapLedger} (h : LogAgrees c l) (hsame : SameTraps c c') : LogAgrees c' l where
  count := hsame.count.trans h.count
  last hl := hsame.last.trans (h.last hl)
  free := by
    rw [hsame.log]
    exact h.free
  entry := by
    rw [hsame.log]
    exact h.entry

theorem LogAgrees.live {c : Cpu} {l : TrapLedger} (h : LogAgrees c l) :
    trapLive l.log.length = (0 : U32).slt c.dbg.trap_log_count := by
  rw [h.count]
  rfl

theorem LogAgrees.write {c c' : Cpu} {l l' : TrapLedger} (h : LogAgrees c l) {i : U32} {t : TrapLog}
    {e : CallLog.Entry U64 (U64 × U64)} (hlog : c'.dbg.trap_log = setAt c.dbg.trap_log i t)
    (hcell : l'.cell = Function.update l.cell i (some e)) (ht : t.cause = e.what ∧ t.returned = entryReturned e)
    (hcount : c'.dbg.trap_log_count = BitVec.ofNat 32 l'.log.length)
    (hlast : l'.log ≠ [] → c'.dbg.trap_log_last_slot = trapSlot (l'.log.length - 1)) : LogAgrees c' l' where
  count := hcount
  last := hlast
  free j hj := by
    rw [hcell] at hj
    by_cases heq : j = i
    · rw [heq, Function.update_self] at hj
      cases hj
    · rw [Function.update_of_ne heq] at hj
      rw [hlog, setAt_ne _ _ heq]
      exact h.free j hj
  entry j d hj := by
    rw [hcell] at hj
    by_cases heq : j = i
    · rw [heq, Function.update_self] at hj
      cases hj
      rw [hlog, heq, setAt_self]
      exact ht
    · rw [Function.update_of_ne heq] at hj
      rw [hlog, setAt_ne _ _ heq]
      exact h.entry j d hj

/-- **A trap makes the entry that the ledger makes.** -/
theorem LogAgrees.trap {c : Cpu} {l : TrapLedger} (h : LogAgrees c l) (cause tval : U64) :
    LogAgrees (trap c cause tval) (l.take trapSlot trapLive (.call (loggedCause cause))) := by
  have hdbg := trap_dbg c cause tval
  unfold Cpu.logTrap at hdbg
  unfold loggedCause
  by_cases hlogged : (!cause.msb && cause != excEcallS) = true
  · rw [if_pos hlogged] at hdbg
    rw [if_pos hlogged]
    have hslot : c.dbg.trap_log_count.srem 4096 = trapSlot l.log.length := congrArg (BitVec.srem · 4096) h.count
    refine h.write (i := trapSlot l.log.length)
      (t := ⟨cause, tval, c.pc, c.instret, c.priv, c.x 17, c.x 10, c.x 11, c.x 12, 0, 0⟩) (e := ⟨l.calls, cause, none⟩)
      ?_ rfl ⟨rfl, rfl⟩ ?_ fun _ => ?_ <;> rw [hdbg]
    · rw [← hslot]
    · show c.dbg.trap_log_count + 1 = BitVec.ofNat 32 (l.log.length + 1)
      rw [h.count, BitVec.ofNat_add]
      rfl
    · exact hslot
  · rw [if_neg hlogged] at hdbg
    rw [if_neg hlogged]
    have hkept := h.kept (sameTraps_of_dbg hdbg)
    exact ⟨hkept.count, hkept.last, hkept.free, hkept.entry⟩

theorem LogAgrees.popped {c : Cpu} {l : TrapLedger} (h : LogAgrees c l) :
    LogAgrees c (l.take trapSlot trapLive (.ret none)) := ⟨h.count, h.last, h.free, h.entry⟩

/-- What an SRET fills in. -/
def sretValue (c : Cpu) : Option (U64 × U64) := if (sret c).priv = privU then some (c.x 10, c.csr.sepc) else none

/-- **An SRET fills in what the ledger fills in.** -/
theorem LogAgrees.sret {c : Cpu} {l : TrapLedger} (h : LogAgrees c l) (htracks : l.Tracks trapSlot) :
    LogAgrees (sret c) (l.take trapSlot trapLive (.ret (sretValue c))) := by
  have hdbg : (PgLinux.sret c).dbg = (backfill (bit c.csr.mstatus 8) c).dbg := by
    unfold PgLinux.sret backfill
    dsimp only
    split <;> rfl
  unfold sretValue
  rw [sret_priv]
  unfold backfill at hdbg
  by_cases hspp : bit c.csr.mstatus 8 = 0
  · rw [hspp] at hdbg ⊢
    rw [if_pos (by decide)]
    by_cases hlive : (0 : U32).slt c.dbg.trap_log_count = true
    · rw [if_pos ⟨rfl, hlive⟩] at hdbg
      obtain ⟨e, rest, hlog, he, hcell⟩ := htracks.fills (show trapLive 0 = false from rfl) (h.live.trans hlive)
      have hlast : c.dbg.trap_log_last_slot = trapSlot rest.length := by
        rw [h.last (by simp [hlog]), hlog]
        rfl
      obtain ⟨hcause, -⟩ := h.entry _ e he
      refine h.write (i := trapSlot rest.length) (t := { c.dbg.trap_log (trapSlot rest.length) with
        ret_a0 := c.x 10, ret_pc := c.csr.sepc }) ?_ (hcell _) ⟨hcause, rfl⟩ ?_ fun hl => ?_ <;> rw [hdbg]
      · rw [← hlast]
      · exact h.count
      · exact h.last hl
    · rw [if_neg fun hand => hlive hand.2] at hdbg
      have hkept := h.kept (sameTraps_of_dbg hdbg)
      have hcell : (l.take trapSlot trapLive (.ret (some (c.x 10, c.csr.sepc)))).cell = l.cell :=
        if_neg fun hl => hlive (h.live.symm.trans hl)
      refine ⟨hkept.count, hkept.last, fun i hi => hkept.free i ?_, fun i e hi => hkept.entry i e ?_⟩
      · rwa [hcell] at hi
      · rwa [hcell] at hi
  · rw [if_neg fun hand => hspp hand.1] at hdbg
    have hone : bit c.csr.mstatus 8 = 1 := (bit_eq_zero_or _ _).resolve_left hspp
    rw [hone, if_neg (by decide)]
    exact (h.kept (sameTraps_of_dbg hdbg)).popped

/-- No entry was made yet. -/
structure FreshTrapLog (c : Cpu) : Prop where
  count : c.dbg.trap_log_count = 0
  free : ∀ i, (c.dbg.trap_log i).returned = (0, 0)

theorem FreshTrapLog.agrees {c : Cpu} (h : FreshTrapLog c) : LogAgrees c .empty :=
  ⟨h.count, fun hl => absurd rfl hl, fun i _ => h.free i, fun _ _ he => nomatch he⟩

theorem freshTrapLog_init (ram : Mem) (ramSize : U64) : FreshTrapLog (rv64Init ram ramSize) := ⟨rfl, fun _ => rfl⟩

/-! ## What a move does to the ledger -/

/-- The trap that `c` has just taken. -/
def trapEvent (c : Cpu) : TrapEvent := .call (loggedCause c.trapInfo.cause)

theorem LogAgrees.trapped {c d : Cpu} {l : TrapLedger} (h : LogAgrees c l) (htrap : Trapped c d) :
    LogAgrees d (l.take trapSlot trapLive (trapEvent d)) := by
  obtain ⟨m, cause, tval, hm, rfl⟩ := htrap
  unfold trapEvent
  rw [trapInfo_trap]
  exact (h.kept hm).trap cause tval

section Moves

variable [NetDevice] [HostFp]

/-- A trap, MRET or SRET. -/
def stepEvents (c : Cpu) : List TrapEvent :=
  if c.halted then []
  else
    match stepBody c with
    | .error () d => [trapEvent d]
    | .ok () d =>
      if c.executed = some 0x30200073 then [.ret none]
      else if c.executed = some 0x10200073 then [.ret (if d.priv = privU then some (d.x 10, d.pc) else none)]
      else []

/-- A call of the FPU traps if it answers 1; nothing else of a block does. -/
def opEvents (s : JState) (op : SljitOp) : List TrapEvent :=
  if op == .icall .fpExec && (s.exec op).regs .R0 == 1 then [trapEvent (s.exec op).cpu] else []

def blockEvents : Option Label → List SljitOp → JState → List TrapEvent
  | _, [], _ => []
  | some l, op :: ops, s => blockEvents (if op = .label l then none else some l) ops s
  | none, op :: ops, s => opEvents s op ++ blockEvents (s.target op) ops (s.exec op)

def jitEvents (undef : U64) (c : Cpu) : List TrapEvent :=
  match ranBlock c with
  | some (code, d) => blockEvents none code (blockStart undef d)
  | none => []

def interruptEvents (c : Cpu) : List TrapEvent :=
  if (checkInterrupts c).2 then [trapEvent (checkInterrupts c).1] else []

def Move.trapEvents (c : Cpu) : Move → List TrapEvent
  | .step => stepEvents c
  | .jit undef => jitEvents undef c
  | .interrupts => interruptEvents c
  | .tick .. => []

variable {c : Cpu} {l : TrapLedger}

theorem LogAgrees.step (h : LogAgrees c l) (htracks : l.Tracks trapSlot) :
    LogAgrees (rv64Step c) ((stepEvents c).foldl (.take trapSlot trapLive) l) := by
  unfold rv64Step stepEvents
  split
  · exact h
  obtain ⟨d, hstop, htrap⟩ | ⟨insn, m, next, d, hexec, hm, hdone, hok⟩ := stepBody_done c
  · rw [hstop]
    exact h.trapped htrap
  · rw [hok, hexec]
    have hretire (c : Cpu) : SameTraps c (retire next c) := ⟨rfl, rfl, rfl⟩
    cases hdone with
    | mret hinsn hd =>
      subst hinsn hd
      have hmret : SameTraps m (mret m) := ⟨rfl, rfl, rfl⟩
      exact (((h.kept hm).kept hmret).kept (hretire _)).popped
    | sret hinsn hnext hd =>
      subst hinsn hnext hd
      have hvalue : (if (PgLinux.sret m).priv = privU then
          some ((PgLinux.sret m).x 10, (retire m.csr.sepc (PgLinux.sret m)).pc) else none) = sretValue m := by
        obtain ⟨r, p, g, hs, -⟩ := sret_frame m
        unfold sretValue
        rw [hs]
        rfl
      have hsret := ((h.kept hm).sret htracks).kept (hretire _)
      rw [← hvalue] at hsret
      exact hsret
    | other hret hd =>
      have hno : ¬ (some insn = some (0x30200073 : U32)) ∧ ¬ (some insn = some (0x10200073 : U32)) :=
        ⟨fun heq => hret (.inl (Option.some.inj heq)), fun heq => hret (.inr (Option.some.inj heq))⟩
      dsimp only
      rw [if_neg hno.1, if_neg hno.2]
      exact ((h.kept hm).kept hd).kept (hretire _)

theorem LogAgrees.exec {s : JState} (h : LogAgrees s.cpu l) (op : SljitOp) :
    LogAgrees (s.exec op).cpu ((opEvents s op).foldl (.take trapSlot trapLive) l) := by
  unfold opEvents
  by_cases hop : op = .icall .fpExec
  · subst hop
    have hfp := sameTraps_fp ((s.regs .R1).setWidth 32) s.cpu
    unfold JState.exec JState.call
    dsimp only
    cases hr : rv64FpExec ((s.regs .R1).setWidth 32) s.cpu with
    | mk r d =>
      rw [hr] at hfp
      cases r with
      | ok => exact h.kept hfp
      | illegal => exact h.kept hfp
      | faulted => exact h.trapped hfp
  · have hrules : BlockRules SameTraps [op] := {
      pc := fun _ _ => ⟨rfl, rfl, rfl⟩
      write := fun _ _ _ _ _ _ => ⟨rfl, rfl, rfl⟩
      load := sameTraps_ends.load
      store := sameTraps_ends.store
      fpExec := fun hmem => absurd (List.mem_singleton.1 hmem).symm hop }
    have hbeq : (op == .icall .fpExec) = false := beq_eq_false_iff_ne.2 hop
    rw [hbeq]
    exact h.kept (hrules.exec s List.mem_cons_self)

theorem LogAgrees.block : ∀ (ops : List SljitOp) {l : TrapLedger} (mode : Option Label) {s : JState}, LogAgrees s.cpu l →
    LogAgrees (runOps mode ops s).2.cpu ((blockEvents mode ops s).foldl (.take trapSlot trapLive) l)
  | [], _, none, _, h => h
  | [], _, some _, _, h => h
  | _ :: ops, _, some _, _, h => LogAgrees.block ops _ h
  | op :: ops, _, none, _, h => by
    unfold runOps blockEvents
    rw [List.foldl_append]
    exact LogAgrees.block ops _ (h.exec op)

theorem LogAgrees.jit (h : LogAgrees c l) (undef : U64) :
    LogAgrees (jitExec undef c).2 ((jitEvents undef c).foldl (.take trapSlot trapLive) l) := by
  unfold jitExec jitEvents ranBlock
  split
  · exact h
  next j hj =>
    dsimp only
    split
    · exact h
    · have hlookup : SameTraps c (lookupBlock j c).2 :=
        lookupBlock_leads sameTraps_ends.load (fun _ _ => ⟨rfl, rfl, rfl⟩) j c
      cases hcode : (lookupBlock j c).1.host_code with
      | none => exact h.kept hlookup
      | some code =>
        have hrun := LogAgrees.block code none (s := blockStart undef (lookupBlock j c).2) (h.kept hlookup)
        have hcount (d : Cpu) (n : U64) : SameTraps d { d with instret := n } := ⟨rfl, rfl, rfl⟩
        exact hrun.kept (hcount _ _)

omit [HostFp] in
theorem LogAgrees.interrupts (h : LogAgrees c l) :
    LogAgrees (checkInterrupts c).1 ((interruptEvents c).foldl (.take trapSlot trapLive) l) := by
  unfold interruptEvents
  obtain ⟨d, hd, hsame⟩ | ⟨d, hd, htrap⟩ := checkInterrupts_traps c
  · rw [hd]
    exact h.kept hsame
  · rw [hd]
    have hwake : SameTraps d { d with halted := false } := ⟨rfl, rfl, rfl⟩
    exact (h.trapped htrap).kept hwake

/-- **A move does to the trap log what its traps and returns do.** -/
theorem LogAgrees.move (h : LogAgrees c l) (htracks : l.Tracks trapSlot) (m : Move) :
    LogAgrees (m.run c) ((m.trapEvents c).foldl (.take trapSlot trapLive) l) := by
  cases m with
  | step => exact h.step htracks
  | jit undef => exact h.jit undef
  | interrupts => exact h.interrupts
  | tick mtime cycle halted pendingIrq debugHalt =>
    have htick : SameTraps c (c.tick mtime cycle halted pendingIrq debugHalt) := ⟨rfl, rfl, rfl⟩
    exact h.kept htick

theorem blockEvents_calls : ∀ (ops : List SljitOp) (mode : Option Label) (s : JState),
    ∀ e ∈ blockEvents mode ops s, ∃ what, e = .call what
  | [], none, _, _, he => nomatch he
  | [], some _, _, _, he => nomatch he
  | _ :: ops, some _, s, e, he => blockEvents_calls ops _ s e he
  | op :: ops, none, s, e, he => by
    unfold blockEvents at he
    rcases List.mem_append.1 he with he | he
    · unfold opEvents at he
      split at he
      · rw [List.mem_singleton.1 he]
        exact ⟨_, rfl⟩
      · cases he
    · exact blockEvents_calls ops _ _ e he

/-- Only a step returns, and then does nothing else. -/
theorem Move.round (m : Move) (c : Cpu) : Round (m.trapEvents c) := by
  have hcall (d : Cpu) : Round [trapEvent d] := .inl fun e he => ⟨_, List.mem_singleton.1 he⟩
  have hnil : Round ([] : List TrapEvent) := .inl fun _ he => nomatch he
  cases m with
  | step =>
    show Round (stepEvents c)
    unfold stepEvents
    split
    · exact hnil
    split
    · exact hcall _
    split
    · exact .inr ⟨_, rfl⟩
    split
    · exact .inr ⟨_, rfl⟩
    · exact hnil
  | jit undef =>
    show Round (jitEvents undef c)
    unfold jitEvents
    split
    · exact .inl (blockEvents_calls _ _ _)
    · exact hnil
  | interrupts =>
    show Round (interruptEvents c)
    unfold interruptEvents
    split
    · exact hcall _
    · exact hnil
  | tick mtime cycle halted pendingIrq debugHalt => exact hnil

/-! ## Runs -/

/-- The traps and returns of the moves, one after the other. -/
def runEvents : Cpu → List Move → List TrapEvent
  | _, [] => []
  | c, m :: moves => m.trapEvents c ++ runEvents (m.run c) moves

theorem runEvents_append : ∀ (a : List Move) (c : Cpu) (b : List Move),
    runEvents c (a ++ b) = runEvents c a ++ runEvents (a.foldl Move.run c) b
  | [], _, _ => rfl
  | m :: a, c, b => by
    rw [List.cons_append, runEvents, runEvents, runEvents_append a, List.append_assoc, List.foldl_cons]

theorem LogAgrees.run : ∀ (moves : List Move) {c : Cpu} {l : TrapLedger}, LogAgrees c l → l.Tracks trapSlot →
    LogAgrees (moves.foldl Move.run c) ((runEvents c moves).foldl (.take trapSlot trapLive) l)
  | [], _, _, h, _ => h
  | m :: moves, _, _, h, htracks => by
    unfold runEvents
    rw [List.foldl_append]
    exact LogAgrees.run moves (h.move htracks m) (htracks.takes _)

/-- The ledger after a run that starts with an empty log. -/
def trapLedger (c : Cpu) (moves : List Move) : TrapLedger := (runEvents c moves).foldl (.take trapSlot trapLive) .empty

/-- **The return fields of an entry are 0, or a0 and the target of the SRET that returned from its trap.** -/
structure ReturnsPaired (c : Cpu) (l : TrapLedger) : Prop extends LogAgrees c l where
  paired : l.Paired

/-- An SRET to user mode is made in the trap that was logged last, once there is an entry. -/
def Move.AnswersLast (c : Cpu) (l : TrapLedger) (m : Move) : Prop :=
  ∀ e ∈ m.trapEvents c, e.fills → (0 : U32).slt c.dbg.trap_log_count → l.pending.head? = l.log.head?

instance (c : Cpu) (l : TrapLedger) (m : Move) : Decidable (m.AnswersLast c l) :=
  inferInstanceAs (Decidable (∀ e ∈ m.trapEvents c, e.fills → _ → _))

theorem answersLast_iff {c : Cpu} {l : TrapLedger} (h : LogAgrees c l) (m : Move) :
    m.AnswersLast c l ↔ ∀ e ∈ m.trapEvents c, l.Answers trapLive e := by
  unfold Move.AnswersLast Ledger.Answers
  rw [h.live]

/-- **The log is paired all along a run exactly when every SRET to user mode is made in the trap logged last.** -/
theorem returnsPaired_iff {c : Cpu} (h : FreshTrapLog c) (moves : List Move) :
    (∀ k, ReturnsPaired ((moves.take k).foldl Move.run c) (trapLedger c (moves.take k))) ↔
      ∀ (k : Nat) (m : Move), moves[k]? = some m →
        m.AnswersLast ((moves.take k).foldl Move.run c) (trapLedger c (moves.take k)) := by
  have hagrees (k : Nat) : LogAgrees ((moves.take k).foldl Move.run c) (trapLedger c (moves.take k)) :=
    h.agrees.run (moves.take k) tracks_empty
  let rounds (k : Nat) : List TrapEvent := moves[k]?.elim [] fun m => m.trapEvents ((moves.take k).foldl Move.run c)
  have hnext (k : Nat) : trapLedger c (moves.take (k + 1)) =
      (rounds k).foldl (.take trapSlot trapLive) (trapLedger c (moves.take k)) := by
    unfold trapLedger
    rw [List.take_add_one, runEvents_append, List.foldl_append]
    cases hm : moves[k]? with
    | none => simp [rounds, hm, runEvents]
    | some m => simp [rounds, hm, runEvents]
  have hround (k : Nat) : Round (rounds k) := by
    cases hm : moves[k]? with
    | none => exact .inl fun _ he => by simp [rounds, hm] at he
    | some m =>
      have hmove := m.round ((moves.take k).foldl Move.run c)
      simpa [rounds, hm] using hmove
  have hpaired := paired_iff (fun k => trapLedger c (moves.take k)) rfl hnext hround (show trapLive 0 = false from rfl)
  constructor
  · intro hall k m hm
    refine (answersLast_iff (hagrees k) m).2 fun e he => ?_
    exact hpaired.1 (fun k => (hall k).paired) k e (by simpa [rounds, hm] using he)
  · intro hall k
    refine ⟨hagrees k, hpaired.2 (fun k e he => ?_) k⟩
    cases hm : moves[k]? with
    | none => simp [rounds, hm] at he
    | some m => exact (answersLast_iff (hagrees k) m).1 (hall k m hm) e (by simpa [rounds, hm] using he)

end Moves

/-! ## A system call -/

section Instances

local instance returnsNet : NetDevice := NetDevice.silent
local instance returnsFp : HostFp := HostFp.zero

/-- The boot sets the handlers and goes to user mode at 0x80000028, an ECALL.  The handler of S-mode is `insn` and an SRET;
that of M-mode goes back to the SRET. -/
def syscallCpu (insn : U32) : Cpu :=
  rv64Init (programAt [0x10000093, 0x30209073, 0x00000117, 0x02410193, 0x10519073, 0x02C10193, 0x30519073, 0x02010193,
    0x34119073, 0x30200073, 0x00000073, insn, 0x10200073, 0x02810193, 0x34119073, 0x30200073] 0 fun _ => 0) 0x1000

def stepMoves (n : Nat) : List Move := List.replicate n .step

/-- The handler answers 42. -/
theorem returnsPaired_syscall :
    (∀ k, ReturnsPaired (((stepMoves 13).take k).foldl Move.run (syscallCpu 0x02A00513))
      (trapLedger (syscallCpu 0x02A00513) ((stepMoves 13).take k))) ∧
      (((stepMoves 13).foldl Move.run (syscallCpu 0x02A00513)).dbg.trap_log 0).returned = (42, 0x80000028) := by
  have hanswers : ∀ k < 13, Move.step.AnswersLast (((stepMoves 13).take k).foldl Move.run (syscallCpu 0x02A00513))
      (trapLedger (syscallCpu 0x02A00513) ((stepMoves 13).take k)) := by decide +kernel
  refine ⟨(returnsPaired_iff (freshTrapLog_init _ _) (stepMoves 13)).2 fun k m hm => ?_, by decide +kernel⟩
  obtain ⟨hk, rfl⟩ : k < 13 ∧ m = .step := by
    have hsteps := List.getElem?_replicate.symm.trans hm
    split at hsteps
    next hk => exact ⟨hk, (Option.some.inj hsteps).symm⟩
    · cases hsteps
  exact hanswers k hk

/-- **A breakpoint in the handler**: the SRET that returns from the system call fills in the breakpoint's entry. -/
theorem not_returnsPaired_breakpoint :
    let c := (stepMoves 16).foldl Move.run (syscallCpu 0x00100073)
    (c.dbg.trap_log 0).cause = excEcallU ∧ (c.dbg.trap_log 0).returned = (0, 0) ∧
      (c.dbg.trap_log 1).cause = excBreakpoint ∧ (c.dbg.trap_log 1).returned = (0, 0x80000028) ∧
      ¬ ReturnsPaired c (trapLedger (syscallCpu 0x00100073) (stepMoves 16)) := by
  have hcell : (trapLedger (syscallCpu 0x00100073) (stepMoves 16)).cell 1 =
      some ⟨1, excBreakpoint, some ⟨some 0, (0, 0x80000028)⟩⟩ := by decide +kernel
  refine ⟨by decide +kernel, by decide +kernel, by decide +kernel, by decide +kernel, fun h => ?_⟩
  have hown := h.paired 1 _ _ hcell rfl
  cases hown

end Instances

end PgLinux
