import PgLinux.BlockBookkeeping
import PgLinux.BlockExits
import PgLinux.CsrProtection
import PgLinux.RunLoop
/-!
# TrapPrecision — an instruction that traps inside a block traps once

A block is left at its first instruction that traps.  `rv64_fp_exec` has delivered the trap by then, or the interpreter
still has to: at once when the block has counted nothing, else after the next look at the loop's condition.  What is shown
then is what the interpreter shows where fetching does not show: the compiler fetches ahead of the instructions, and the A
bits that this sets are seen by a load of the page table.
-/
namespace PgLinux

open Prog

/-! ## What retires -/

def SameInstret (c c' : Cpu) : Prop := c'.instret = c.instret

instance : IsPreorder Cpu SameInstret where
  refl _ := rfl
  trans _ _ _ h h' := h'.trans h

theorem access_sameInstret {α : Type} {m : Access α} (h : Leads AccessFrame m) : Leads SameInstret m :=
  h.mono fun c c' hf => by
    obtain ⟨t, b, d, rfl⟩ := hf
    rfl

section Retires

variable [NetDevice]

theorem sameInstret_rules : ExecRules SameInstret where
  wr _ _ _ := rfl
  reserve _ _ := rfl
  load va size access := access_sameInstret (rv64CpuLoad_frame va size access)
  store va size val := access_sameInstret (cpuStore_frame va size val)
  trap := trap_instret
  jitFlush _ := rfl

theorem fetched_instret (d : Cpu) : SameInstret d (final (fetchInsn d.pc (checkBreak d))) := by
  have hbreak : (checkBreak d).instret = d.instret := by
    obtain ⟨t, b, g, h⟩ := checkBreak_frame d
    rw [h]
  exact (sameInstret_rules.toLoad.fetchInsn d.pc (checkBreak d)).trans hbreak

variable [HostFp]

theorem execInsn_sameInstret (insn : U32) (pc nextPc : U64) : Leads SameInstret (execInsn insn pc nextPc) := by
  have hfp (c : Cpu) : SameInstret c (rv64FpExec insn c).2 := by
    refine sameInstret_rules.rv64FpExec (fun _ => rfl) (fun _ _ => rfl) fun d hd => ?_
    obtain ⟨x, f, rfl⟩ := fpCompute_regs _ _ d hd
    rfl
  have hsret (c : Cpu) : SameInstret c (sret c) := by
    unfold sret backfill SameInstret
    dsimp only
    split <;> rfl
  have hsystem : Leads SameInstret (execSystem insn nextPc) :=
    sameInstret_rules.toLoad.execSystem (fun _ c => ⟨rfl, hsret c⟩) (fun _ => rfl) (fun _ => rfl) nextPc
  exact sameInstret_rules.execInsn (fun _ => hfp)
    (fun _ => leads_ite hsystem (sameInstret_rules.toLoad.execCsr csrWriteChecked_instret insn nextPc)) pc

/-- **A step that does not trap retires one instruction, one that does none.** -/
theorem stepBody_instret (d : Cpu) : (∀ e, stepBody d = .ok () e → e.instret = d.instret + 1) ∧
    ∀ e, stepBody d = .error () e → e.instret = d.instret := by
  have hfetch := fetched_instret d
  rw [stepBody_eq]
  cases hf : fetchInsn d.pc (checkBreak d) with
  | error e e' =>
    rw [hf] at hfetch
    refine ⟨(fun _ h => nomatch h), fun _ h => ?_⟩
    cases h
    exact hfetch
  | ok word e =>
    rw [hf] at hfetch
    have hlog : (logInsn word e).instret = d.instret := hfetch
    dsimp only
    rcases expandInsn_cases word with ⟨insn, he⟩ | he
    · rw [afterFetch_insn he]
      have hexec := execInsn_sameInstret insn d.pc (d.pc + insnBytes (isCompressed word)) (logInsn word e)
      cases hx : execInsn insn d.pc (d.pc + insnBytes (isCompressed word)) (logInsn word e) with
      | error e' e'' =>
        rw [hx] at hexec
        refine ⟨(fun _ h => nomatch h), fun _ h => ?_⟩
        cases h
        exact hexec.trans hlog
      | ok nextPc e' =>
        rw [hx] at hexec
        refine ⟨fun _ h => ?_, fun _ h => nomatch h⟩
        cases h
        exact congrArg (· + 1) (hexec.trans hlog)
    · unfold afterFetch
      rw [he]
      refine ⟨(fun _ h => nomatch h), fun _ h => ?_⟩
      cases h
      exact (trap_instret _ _ _).trans hlog

theorem Cpu.Retires.instret {d : Cpu} (h : d.Retires) : (rv64Step d).instret = d.instret + 1 :=
  (stepBody_instret d).1 _ h.2

theorem Cpu.Traps.instret {d : Cpu} (h : d.Traps) : (rv64Step d).instret = d.instret := (stepBody_instret d).2 _ h.2

theorem retires_iff {d : Cpu} : d.Retires ↔ d.halted = false ∧ (rv64Step d).instret = d.instret + 1 := by
  refine ⟨fun h => ⟨h.1, h.instret⟩, fun ⟨hrun, hcount⟩ => ?_⟩
  cases hstep : stepBody d with
  | ok v e => exact (retires_of hrun hstep).1
  | error v e =>
    rw [(traps_of hrun hstep).1.instret] at hcount
    exact absurd hcount (by grind)

theorem traps_iff {d : Cpu} : d.Traps ↔ d.halted = false ∧ (rv64Step d).instret = d.instret := by
  refine ⟨fun h => ⟨h.1, h.instret⟩, fun ⟨hrun, hcount⟩ => ?_⟩
  cases hstep : stepBody d with
  | error v e => exact (traps_of hrun hstep).1
  | ok v e =>
    rw [(retires_of hrun hstep).1.instret] at hcount
    exact absurd hcount (by grind)

theorem stepTimes_succ (k : Nat) (d : Cpu) : stepTimes (k + 1) d = rv64Step (stepTimes k d) := by
  induction k generalizing d with
  | zero => rfl
  | succ k ih => exact ih (rv64Step d)

end Retires

/-! ## What a trap shows -/

/-- What the guest sees, the trap's cause, value and return address among it. -/
structure TrapSeen (c d : Cpu) : Prop where
  pc : c.pc = d.pc
  x : c.x = d.x
  f : c.f = d.f
  csr : c.csr = d.csr
  priv : c.priv = d.priv
  ram : c.bus.mem.ram = d.bus.mem.ram
  instret : c.instret = d.instret

section Precise

variable [NetDevice] [HostFp]

/-- The machine after a turn of the loop body of `rv64_run_jit`. -/
def jitTurn (undef : U64) (s : RunState) : Cpu := passCpu (jitLoop.attempt undef s)

/-- The turn shows what `d` shows, behind its block or at its end. -/
def Shows (undef : U64) (s : RunState) (d : Cpu) : Prop :=
  TrapSeen (jitLoop.block undef s.cpu).2 d ∨ TrapSeen (jitTurn undef s) d

/-- One turn of the loop from `s` delivers the trap that leads to `d`, or the next does. -/
def DeliversTrap (undef : U64) (s : RunState) (d : Cpu) : Prop :=
  Shows undef s d ∨ ∀ undef' s', s'.cpu = jitTurn undef s → Shows undef' s' d

/-! ## Guests -/

/-- Guest code whose single instructions agree with the interpreter, where they trap as well.  The call of such an
instruction fails, and leaves the machine after the trap, or one that is to deliver it; `n` is the count so far.  The loop
writes the cycle count and the logs of the machine that runs blocks. -/
structure PreciseGuest (code : U64 → Option U32) (Sim : Cpu → Cpu → Prop) : Prop where
  seen : ∀ c d, Sim c d → TrapSeen c d
  quiet : ∀ c d y g, Sim c d → Sim { c with cycle := y, dbg := g } d
  completes : ∀ i : JitSrc, code i.va = some i.word → i.emitted.supported = true → Completes JitSrc.perform Sim i
  fails : ∀ (i : JitSrc) c d e n, code i.va = some i.word → i.emitted.supported = true →
    Sim { c with instret := c.instret + n } d → d.pc = i.va → i.perform d = .error () e → ∃ f, i.failure c = some f ∧
      (f.delivered = true → Sim { f.cpu with instret := f.cpu.instret + n } e) ∧
      (f.delivered = false → ∃ d', Sim { f.cpu with instret := f.cpu.instret + n } d' ∧ i.Retries e d')
  performs : ∀ (i : JitSrc) c d e, code i.va = some i.word → i.emitted.supported = true → Sim c d → d.pc = i.va →
    i.perform d = .error () e → ∃ e', i.perform c = .error () e' ∧ Sim e' e

variable {code : U64 → Option U32} {Sim : Cpu → Cpu → Prop} {c d e : Cpu} {j : JitState} {i : JitSrc}

theorem PreciseGuest.pc (hg : PreciseGuest code Sim) (c d : Cpu) (h : Sim c d) : c.pc = d.pc := (hg.seen c d h).pc

/-- **A trap leaves the block of its instruction**, delivered or still to be delivered. -/
theorem PreciseGuest.stops (hg : PreciseGuest code Sim) (hw : code i.va = some i.word) (hsup : i.emitted.supported = true) :
    Stops JitSrc.perform Sim i := by
  intro s d e hsim hpc htrap
  obtain ⟨f, hfail, hdone, hopen⟩ := hg.fails i s.cpu d e (s.regs .S1) hw hsup hsim hpc htrap
  obtain ⟨t, hrun, hmachine⟩ := JitSrc.left hsup hfail
  refine ⟨t, hrun, ?_⟩
  rw [hmachine]
  cases hd : f.delivered with
  | true => exact .inl (hdone hd)
  | false => exact .inr (hopen hd)

/-- A step that fetches the instruction traps as the instruction does. -/
theorem Stops.stepped (h : Stops JitSrc.perform Sim i) (hf : FetchesHidden code Sim) (hpcs : ∀ c d, Sim c d → c.pc = d.pc)
    (hw : code i.va = some i.word) : Stops (fun _ => stepBody) Sim i := by
  intro s d e hsim hpc htrap
  obtain ⟨d', hstep, hsim', hpc'⟩ := hf.fetched hpcs hsim hw hpc
  exact h s d' e hsim' hpc' (hstep.symm.trans htrap)

/-- **The step that makes up for an open trap delivers it.** -/
theorem PreciseGuest.retry (hg : PreciseGuest code Sim) (hf : FetchesHidden code Sim) (hw : code i.va = some i.word)
    (hsup : i.emitted.supported = true) (hsim : Sim c d) (hretry : i.Retries e d) : Sim (rv64Step c) e := by
  have hcode : code d.pc = some i.word := by rw [hretry.here, hw]
  obtain ⟨c', hfetch, hsim'⟩ := hf.block c d i.word hsim hcode
  obtain ⟨e', hperform, he'⟩ := hg.performs i _ d e hw hsup hsim' hretry.here hretry.traps
  have hbody : stepBody c = .error () e' := by
    rw [stepBody_eq, hfetch, hg.pc c d hsim, hretry.here]
    exact hperform
  rw [(traps_of (hf.running c d i.word hsim hcode) hbody).2]
  exact he'

/-! ## Blocks -/

/-- Whether the trap that leads to `e` is still to be delivered in the machine `m`. -/
def StillTraps (code : U64 → Option U32) (Sim : Cpu → Cpu → Prop) (m e : Cpu) : Prop :=
  ∃ (i : JitSrc) (d : Cpu), code i.va = some i.word ∧ i.emitted.supported = true ∧ Sim m d ∧ i.Retries e d

omit [NetDevice] [HostFp] in
theorem Laid.head {jumps : Nat} {pc : U64} {src : List JitSrc} {ops : List SljitOp} (h : Laid jumps pc (i :: src) ops) :
    i.va = pc := by
  cases h <;> rfl

omit [NetDevice] [HostFp] in
/-- A block of no instruction only loads the operands of the one it could not take. -/
theorem Laid.loads {jumps : Nat} {pc : U64} {src : List JitSrc} {ops : List SljitOp} (h : Laid jumps pc src ops)
    (hsrc : src = []) : ∀ op ∈ ops, ∃ r, op = emitLoadGuest .R0 r ∨ op = emitLoadGuest .R1 r := by
  cases h with
  | stop hloads => exact hloads
  | jump | limit | next => cases hsrc

theorem performs_steps {src : List JitSrc} {k : Nat} (hk : k ≤ src.length) (hret : ∀ n < k, (stepTimes n d).Retires) :
    performAll (fun _ => stepBody) (src.take k) d = .ok () (stepTimes k d) := by
  induction k generalizing src d with
  | zero => rfl
  | succ k ih =>
    cases src with
    | nil => exact absurd hk (by simp)
    | cons o src =>
      have hrest : performAll (fun _ => stepBody) (src.take k) (rv64Step d) = .ok () (stepTimes k (rv64Step d)) :=
        ih (Nat.le_of_succ_le_succ hk) fun n hn => hret (n + 1) (Nat.succ_lt_succ hn)
      exact bind_eq_ok.2 ⟨(), _, (hret 0 (Nat.succ_pos k)).2, hrest⟩

/-- **A block is left at its first instruction that traps**, and answers with the number of those before it. -/
theorem jitExec_stops (undef : U64) (hf : FetchesHidden code Sim) (hpcs : ∀ c d, Sim c d → c.pc = d.pc) {step : JitSrc → Exec Unit}
    (hcomp : ∀ i : JitSrc, code i.va = some i.word → i.emitted.supported = true → Completes step Sim i)
    (hstops : ∀ i : JitSrc, code i.va = some i.word → i.emitted.supported = true → Stops step Sim i) (hjit : c.jit = some j)
    (hen : j.enabled = true) (hsim : Sim c d) {w : U32} (hw : code d.pc = some w) {k : Nat}
    (hk : (lookupBlock j c).1.src[k]? = some i) {d' : Cpu} (hrun : performAll step ((lookupBlock j c).1.src.take k) d = .ok () d')
    (htrap : step i d' = .error () e) :
    ∃ m, jitExec undef c = (BitVec.ofNat 64 k, m) ∧ (Sim m e ∨ StillTraps code Sim m e) := by
  obtain ⟨hlookup, hmade, hcode⟩ := hf.lookup c d w j hsim hw hjit
  obtain ⟨-, ⟨hnil, -⟩ | ⟨ops, hlaid, hhost⟩⟩ := hmade.code
  · rw [hnil] at hk
    cases hk
  · have hentry := blockEntry_machine undef (lookupBlock j c).2
    have hsup := hlaid.supported
    have hmem : i ∈ (lookupBlock j c).1.src := List.mem_of_getElem? hk
    obtain ⟨s', hops, hcount, hout⟩ := hlaid.stops hpcs (fun i hi => hcomp i (hcode i hi) (hsup i hi))
      (fun i hi => hstops i (hcode i hi) (hsup i hi)) (s := blockEntry undef (lookupBlock j c).2)
      (by rw [hentry]; exact hlookup) rfl hk hrun htrap
    refine ⟨s'.machine, ?_, hout.imp_right fun ⟨d'', hd, hretries⟩ => ⟨i, d'', hcode i hmem, hsup i hmem, hd, hretries⟩⟩
    rw [jitExec_run hjit hen hhost hops (.inr rfl), hcount]
    exact Prod.ext (BitVec.zero_add _) rfl

/-- A block of no instruction. -/
theorem jitExec_empty (undef : U64) (hf : FetchesHidden code Sim) (hjit : c.jit = some j) (hen : j.enabled = true)
    (hsim : Sim c d) {w : U32} (hw : code d.pc = some w) (hsrc : (lookupBlock j c).1.src = []) :
    ∃ m, jitExec undef c = (0, m) ∧ Sim m d := by
  obtain ⟨hlookup, hmade, -⟩ := hf.lookup c d w j hsim hw hjit
  obtain ⟨-, ⟨-, hnone⟩ | ⟨ops, hlaid, hhost⟩⟩ := hmade.code
  · refine ⟨(lookupBlock j c).2, ?_, hlookup⟩
    unfold jitExec
    rw [hjit]
    dsimp only
    rw [if_neg (by rw [hen]; decide), hnone]
  · have hentry := blockEntry_machine undef (lookupBlock j c).2
    obtain ⟨s', hrun, hm, hcount⟩ := runOps_loads (hlaid.loads hsrc) (blockEntry undef (lookupBlock j c).2)
    refine ⟨s'.machine, ?_, by rw [hm, hentry]; exact hlookup⟩
    rw [jitExec_run hjit hen hhost hrun (.inl rfl), hcount]
    rfl

omit [HostFp] in
/-- A block that holds an instruction begins with that at the pc. -/
theorem first_of_block (hf : FetchesHidden code Sim) (hsim : Sim c d) (hw : code i.va = some i.word) (hpc : d.pc = i.va)
    (hjit : c.jit = some j) (hsrc : (lookupBlock j c).1.src ≠ []) : (lookupBlock j c).1.src[0]? = some i := by
  obtain ⟨-, hmade, hcode⟩ := hf.lookup c d i.word j hsim (by rw [hpc]; exact hw) hjit
  obtain ⟨-, ⟨hnil, -⟩ | ⟨ops, hlaid, -⟩⟩ := hmade.code
  · exact absurd hnil hsrc
  · obtain ⟨o, src, hcons⟩ := List.exists_cons_of_ne_nil hsrc
    have hword := hcode o (by rw [hcons]; exact List.mem_cons_self)
    rw [hcons] at hlaid ⊢
    have hva : o.va = i.va := hlaid.head.trans hpc
    rw [hva, hw] at hword
    obtain ⟨va, word⟩ := o
    obtain rfl : va = i.va := hva
    obtain rfl : i.word = word := Option.some.inj hword
    rfl

/-- **An instruction that traps at the start of a block is not counted.** -/
theorem block_stops (undef : U64) (hg : PreciseGuest code Sim) (hf : FetchesHidden code Sim) (hsim : Sim c d)
    (hw : code i.va = some i.word) (hsup : i.emitted.supported = true) (hretry : i.Retries e d) :
    ∃ m, jitLoop.block undef c = (0, m) ∧ (Sim m e ∨ StillTraps code Sim m e) := by
  have hstill {m : Cpu} (h : Sim m d) : StillTraps code Sim m e := ⟨i, d, hw, hsup, h, hretry⟩
  have hcode : code d.pc = some i.word := by rw [hretry.here, hw]
  have hidle {m : Cpu} (hexec : jitExec undef c = (0, m)) : jitLoop.block undef c = (0, if c.irqWaiting then c else m) := by
    unfold RunLoop.block
    rw [hexec]
    cases c.irqWaiting <;> rfl
  have hskipped (hexec : jitExec undef c = (0, c)) : ∃ m, jitLoop.block undef c = (0, m) ∧ (Sim m e ∨ StillTraps code Sim m e) :=
    ⟨c, by rw [hidle hexec, ite_self], .inr (hstill hsim)⟩
  cases hjit : c.jit with
  | none =>
    refine hskipped ?_
    unfold jitExec
    rw [hjit]
  | some j =>
    by_cases hen : j.enabled = true
    · obtain ⟨m, hexec, hout⟩ : ∃ m, jitExec undef c = (0, m) ∧ (Sim m e ∨ StillTraps code Sim m e) := by
        by_cases hsrc : (lookupBlock j c).1.src = []
        · exact jitExec_empty undef hf hjit hen hsim hcode hsrc |>.imp fun m hm => ⟨hm.1, .inr (hstill hm.2)⟩
        · obtain ⟨hfirst, hrun⟩ : (lookupBlock j c).1.src[0]? = some i ∧
              performAll JitSrc.perform ((lookupBlock j c).1.src.take 0) d = .ok () d :=
            ⟨first_of_block hf hsim hw hretry.here hjit hsrc, rfl⟩
          exact jitExec_stops undef hf hg.pc hg.completes (fun _ => hg.stops) hjit hen hsim hcode hfirst hrun hretry.traps
      refine ⟨_, hidle hexec, ?_⟩
      by_cases hirq : c.irqWaiting = true
      · rw [if_pos hirq]
        exact .inr (hstill hsim)
      · rw [if_neg hirq]
        exact hout
    · refine hskipped ?_
      unfold jitExec
      rw [hjit]
      simp [hen]

/-! ## The loop -/

/-- **A turn whose block counts nothing shows the trap that the block left**, delivered or made up for by the step. -/
theorem turn_shows {undef : U64} (hg : PreciseGuest code Sim) (hf : FetchesHidden code Sim) {s : RunState} {m : Cpu}
    (hblock : jitLoop.block undef s.cpu = (0, m)) (hout : Sim m e ∨ StillTraps code Sim m e) : Shows undef s e := by
  have hturn : jitTurn undef s = rv64Step m ∨ jitTurn undef s = (rv64Step m).clearHalt := by
    unfold jitTurn RunLoop.attempt
    dsimp only
    rw [hblock, if_neg (by simp)]
    dsimp only
    split
    · exact .inl rfl
    · exact .inr rfl
  obtain hdone | ⟨i, d, hw, hsup, hd, hretry⟩ := hout
  · left
    rw [hblock]
    exact hg.seen _ _ hdone
  · have hstep := hg.retry hf hw hsup hd hretry
    right
    obtain hp | hp := hturn
    · rw [hp]
      exact hg.seen _ _ hstep
    · rw [hp]
      exact hg.seen _ _ (hg.quiet _ _ _ _ hstep)

/-- **A turn at an instruction that traps delivers its trap.** -/
theorem turn_delivers (undef : U64) (hg : PreciseGuest code Sim) (hf : FetchesHidden code Sim) {s : RunState}
    (hsim : Sim s.cpu d) (hw : code i.va = some i.word) (hsup : i.emitted.supported = true) (hretry : i.Retries e d) :
    Shows undef s e := by
  obtain ⟨m, hblock, hout⟩ := block_stops undef hg hf hsim hw hsup hretry
  exact turn_shows hg hf hblock hout

/-- **Where fetching does not show, an instruction that traps inside a block traps once, with what the interpreter shows**:
those before it retire once, and it does not. -/
theorem trapPrecise (undef : U64) (hg : PreciseGuest code Sim) (hf : FetchesHidden code Sim) {s : RunState}
    (hjit : s.cpu.jit = some j) (hen : j.enabled = true) (hirq : s.cpu.irqWaiting = false) (hsim : Sim s.cpu s.cpu) {w : U32}
    (hw : code s.cpu.pc = some w) {k : Nat} (hk : k < (lookupBlock j s.cpu).1.src.length)
    (hret : ∀ n < k, (stepTimes n s.cpu).Retires) (htrap : (stepTimes k s.cpu).Traps) :
    DeliversTrap undef s (stepTimes (k + 1) s.cpu) ∧
      (stepTimes (k + 1) s.cpu).instret = s.cpu.instret + BitVec.ofNat 64 k := by
  have hlen : (lookupBlock j s.cpu).1.src.length < 2 ^ 31 := (hf.lookup _ _ w j hsim hw hjit).2.1.code.1
  have hcount : ∀ n ≤ k, (stepTimes n s.cpu).instret = s.cpu.instret + BitVec.ofNat 64 n := by
    intro n hn
    induction n with
    | zero => simp [stepTimes]
    | succ n ih =>
      rw [stepTimes_succ, (hret n (by omega)).instret, ih (by omega), BitVec.add_assoc, BitVec.ofNat_add]
      rfl
  refine ⟨?_, by rw [stepTimes_succ, htrap.instret, hcount k (Nat.le_refl k)]⟩
  have hstep : stepBody (stepTimes k s.cpu) = .error () (stepTimes (k + 1) s.cpu) := by
    rw [stepTimes_succ]
    exact htrap.2
  obtain ⟨m, hexec, hout⟩ := jitExec_stops undef hf hg.pc (fun i hi hsup => (hg.completes i hi hsup).stepped hf hg.pc hi)
    (fun i hi hsup => (hg.stops hi hsup).stepped hf hg.pc hi) hjit hen hsim hw (List.getElem?_eq_getElem hk)
    (performs_steps (Nat.le_of_lt hk) hret) hstep
  have hblock : jitLoop.block undef s.cpu = ((BitVec.ofNat 64 k).setWidth 32, m) := by
    unfold RunLoop.block
    rw [hexec, hirq]
    rfl
  by_cases hzero : k = 0
  · subst hzero
    exact .inl (turn_shows hg hf hblock hout)
  · have hpos : (0 : U32).slt ((BitVec.ofNat 64 k).setWidth 32) = true := by
      have hlow : ((BitVec.ofNat 64 k).setWidth 32 : U32).toNat = k := by
        rw [BitVec.toNat_setWidth, BitVec.toNat_ofNat]
        omega
      rw [BitVec.slt_eq_decide, decide_eq_true_eq, BitVec.toInt_eq_toNat_of_lt (x := (BitVec.ofNat 64 k).setWidth 32) (by omega), hlow]
      exact Int.natCast_pos.2 (Nat.pos_of_ne_zero hzero)
    have hturn : jitTurn undef s =
        { m with cycle := m.cycle + ((BitVec.ofNat 64 k).setWidth 32 : U32).signExtend 64 } := by
      unfold jitTurn RunLoop.attempt
      dsimp only
      rw [hblock, if_pos hpos]
      rfl
    obtain hdone | ⟨i, d, hw', hsup, hd, hretry⟩ := hout
    · refine .inl (.inl ?_)
      rw [hblock]
      exact hg.seen _ _ hdone
    · refine .inr fun undef' s' hs' => ?_
      have hs'd : Sim s'.cpu d := by
        rw [hs', hturn]
        exact hg.quiet _ _ _ _ hd
      exact turn_delivers undef' hg hf hs'd hw' hsup hretry

end Precise

/-! ## An illegal instruction -/

/-- The opcode of arithmetic with a `funct7` that no width has. -/
def IsFpIllegal (insn : U32) : Prop := (opcode insn).toNat = 0x53 ∧ (funct7 insn).toNat = 0x7F

theorem rv64FpExec_illegal [NetDevice] [HostFp] {insn : U32} (h : IsFpIllegal insn) (c : Cpu) :
    rv64FpExec insn c = (.illegal, markFsDirty c) := by
  have hop : opcode insn = 0x53 := BitVec.eq_of_toNat_eq h.1
  have hnone : fpCompute (markFsDirty c) insn = none := by
    unfold fpCompute fpArithS fpArithD
    rw [if_pos hop]
    simp only [h.2]
    rfl
  unfold rv64FpExec
  simp only [h.1, hnone]

/-! ## Traps of machines that are alike -/

theorem logTrap_alike {c d : Cpu} (h : Alike c d) (cause tval : U64) : Alike (c.logTrap cause tval) (d.logTrap cause tval) := by
  obtain ⟨g, j, y, rfl⟩ := h
  unfold Cpu.logTrap
  by_cases hlog : (!cause.msb && cause != excEcallS) = true
  · rw [if_pos hlog, if_pos hlog]
    exact ⟨_, j, y, rfl⟩
  · rw [if_neg hlog, if_neg hlog]
    exact ⟨g, j, y, rfl⟩

theorem trap_alike {c d : Cpu} (h : Alike c d) (cause tval : U64) : Alike (trap c cause tval) (trap d cause tval) := by
  have hlog := logTrap_alike h cause tval
  unfold trap
  generalize c.logTrap cause tval = c' at hlog
  generalize d.logTrap cause tval = d' at hlog
  obtain ⟨g, j, y, rfl⟩ := hlog
  have hto : trapToS { c' with dbg := g, jit := j, cycle := y } cause = trapToS c' cause := rfl
  dsimp only
  rw [hto]
  split <;> exact ⟨g, j, y, rfl⟩

/-! ## A supervisor in front of an empty page table -/

/-- Sv39 with its root table in the page of the code. -/
def farCsr : Csr :=
  let r := (rv64Init (fun _ => 0) 0x1000).csr
  { r with satp := 8 <<< 60 ||| 0x80000, mstatus := r.mstatus ||| mstatusFs }

/-- An address whose entry in the root table is the last one. -/
def far : U64 := 0x7FC0001000

structure FarMachine (ram : Mem) (size : U64) (c : Cpu) : Prop where
  flat : FlatMachine ram size c
  priv : c.priv = privS
  csr : c.csr = farCsr
  x : c.x 4 = far

section Far

variable {ram : Mem} {size : U64} {c d : Cpu}

theorem FarMachine.of_alike (h : FarMachine ram size c) (ha : Alike c d) : FarMachine ram size d := by
  have hflat := h.flat.of_alike ha
  obtain ⟨g, j, y, rfl⟩ := ha
  exact ⟨hflat, h.priv, h.csr, h.x⟩

theorem FarMachine.page (h : FarMachine ram size c) : c.tlb = pageTlb ∧ size.toNat ≤ 4096 := by
  rcases h.flat.place with ⟨-, hpriv⟩ | ⟨htlb, -, hsize⟩
  · rw [h.priv] at hpriv
    exact absurd hpriv (by decide)
  · exact ⟨htlb, hsize⟩

theorem FarMachine.markFsDirty (h : FarMachine ram size c) : PgLinux.markFsDirty c = c := by
  have hdirty : farCsr.mstatus ||| mstatusFs = farCsr.mstatus := by decide
  unfold PgLinux.markFsDirty
  rw [h.csr, hdirty, ← h.csr]

/-- Nothing is delegated, and the handler is at 0. -/
theorem FarMachine.trap (h : FarMachine ram size c) {cause : U64} (hcause : cause.msb = false) (tval : U64) :
    FlatMachine ram size (PgLinux.trap c cause tval) ∧ (PgLinux.trap c cause tval).pc = 0 := by
  obtain ⟨htlb, hsize⟩ := h.page
  obtain ⟨g, hlog⟩ : ∃ g, c.logTrap cause tval = { c with dbg := g } := by
    unfold Cpu.logTrap
    split
    · exact ⟨_, rfl⟩
    · exact ⟨c.dbg, rfl⟩
  have hto : trapToS { c with dbg := g } cause = false := by
    have hmedeleg : c.csr.medeleg = 0 := by
      rw [h.csr]
      rfl
    unfold trapToS
    simp [hcause, hmedeleg]
  have hvector : trapVector c.csr.mtvec cause = 0 := by
    rw [h.csr]
    rfl
  unfold PgLinux.trap
  rw [hlog]
  dsimp only
  rw [if_neg (by rw [hto]; decide)]
  exact ⟨⟨.inr ⟨htlb, (by decide : privM ≠ privU), hsize⟩, h.flat.ram, h.flat.size, h.flat.running, h.flat.zero⟩, hvector⟩

variable [NetDevice]

/-- **No access reaches the far address.** -/
theorem FarMachine.translate (h : FarMachine ram 0x1000 c) (hram : ram.read 0xFF8 8 = 0) (access : AccessType) :
    rv64Translate far access c = .error (faultCode access) c := by
  have hlookup : tlbLookup c far access = none := by
    unfold tlbLookup Cpu.tlbEntry
    rw [h.page.1]
    rfl
  have hpte : readPte (pteAddr (rootTable c.csr.satp) far 2) c = .ok 0 c := by
    have haddr : pteAddr (rootTable c.csr.satp) far 2 = ramBase + 0xFF8 := by
      rw [h.csr]
      decide
    have hoff : ramBase + 0xFF8 - ramBase = 0xFF8 := by decide
    unfold readPte
    rw [get_bind_apply, haddr, h.flat.size, if_pos (by decide), h.flat.ram, hoff, hram]
    rfl
  have hwalk : walk far access 3 (rootTable c.csr.satp) c = .error (faultCode access) c := by
    unfold walk
    rw [bind_of_ok hpte]
    rfl
  unfold rv64Translate
  rw [get_bind_apply, if_neg (by rw [h.priv]; decide), if_neg (by rw [h.csr]; decide), hlookup]
  exact hwalk

theorem FarMachine.load (h : FarMachine ram 0x1000 c) (hram : ram.read 0xFF8 8 = 0) :
    rv64CpuLoad far 8 .read c = .error excLoadPageFault c := by
  have hmiss : loadFast c far 8 .read = none := by
    unfold loadFast Cpu.tlbEntry
    rw [h.page.1]
    rfl
  rw [rv64CpuLoad_miss hmiss, if_neg (by decide)]
  exact bind_of_error (h.translate hram .read)

/-- The store that faults is in the log. -/
theorem FarMachine.store (h : FarMachine ram 0x1000 c) (hram : ram.read 0xFF8 8 = 0) (v : U64) :
    cpuStore far 8 v c = .error excStorePageFault (logStore far 8 v c) := by
  have hlogged : FarMachine ram 0x1000 (logStore far 8 v c) := by
    obtain ⟨g, hg⟩ := logStore_dbg far 8 v c
    rw [hg]
    exact h.of_alike ⟨g, c.jit, c.cycle, rfl⟩
  have hmiss : storeFast (logStore far 8 v c) far 8 = none := by
    unfold storeFast Cpu.tlbEntry
    rw [hlogged.page.1]
    rfl
  show storeAt far 8 v (logStore far 8 v c) = _
  unfold storeAt
  rw [get_bind_apply, hmiss, if_neg (by decide)]
  exact bind_of_error (hlogged.translate hram .write)

end Far

/-! ## Words that trap there -/

/-- Flat code, as long as the supervisor is in it. -/
structure Far [NetDevice] (ram : Mem) (size : U64) (code : U64 → Option U32) (c d : Cpu) : Prop where
  flat : Flat ram size code c d
  there : ∀ w, code d.pc = some w → FarMachine ram size d

section Words

variable [NetDevice] {ram : Mem} {size : U64} {code : U64 → Option U32} {c d e : Cpu}

theorem Far.machine (h : Far ram size code c d) {w : U32} (hw : code d.pc = some w) : FarMachine ram size c :=
  (h.there w hw).of_alike h.flat.alike.symm

theorem Far.seen (c d : Cpu) (h : Far ram size code c d) : TrapSeen c d := by
  obtain ⟨g, j, y, rfl⟩ := h.flat.alike
  exact ⟨rfl, rfl, rfl, rfl, rfl, rfl, rfl⟩

/-- What differs only in its logs and its cycle count. -/
theorem Far.of_alike {c' d' : Cpu} (h : Far ram size code c d) (hc : Alike c c') (hjit : c'.jit = c.jit) (hd : Alike d d') :
    Far ram size code c' d' where
  flat := ⟨trans_of Alike hc.symm (trans_of Alike h.flat.alike hd), h.flat.machine.of_alike hd, fun j hj =>
    h.flat.cached j (hjit ▸ hj)⟩
  there w hw := by
    have hpc : d'.pc = d.pc := by
      obtain ⟨g, j, y, rfl⟩ := hd
      rfl
    rw [hpc] at hw
    exact (h.there w hw).of_alike hd

/-- **A trap leads out of the code.** -/
theorem Far.trap (h : Far ram size code c d) {w : U32} (hw : code d.pc = some w) (hout : code 0 = none) {cause : U64}
    (hcause : cause.msb = false) (tval : U64) (g g' : Dbg) : Far ram size code
      (PgLinux.trap { c with dbg := g } cause tval) (PgLinux.trap { d with dbg := g' } cause tval) := by
  have hc : Alike c { c with dbg := g } := ⟨g, c.jit, c.cycle, rfl⟩
  have hd : Alike d { d with dbg := g' } := ⟨g', d.jit, d.cycle, rfl⟩
  obtain ⟨hflat, hpc⟩ := ((h.there w hw).of_alike hd).trap hcause tval
  refine ⟨⟨?_, hflat, fun j hj => h.flat.cached j ?_⟩, fun w hw => ?_⟩
  · exact trap_alike (trans_of Alike hc.symm (trans_of Alike h.flat.alike hd)) cause tval
  · obtain ⟨r, p, pc, g'', ht⟩ := trap_frame { c with dbg := g } cause tval
    rw [ht] at hj
    exact hj
  · rw [hpc, hout] at hw
    cases hw

theorem far_hidden (hc : FlatCode ram size code) : FetchesHidden code (Far ram size code) where
  running _ _ _ h hw := (h.machine hw).flat.running
  block c d w h hw := by
    refine ⟨_, (h.machine hw).flat.fetch hc (by rw [h.flat.pc, hw]), h.of_alike (logged_alike w c) ?_ (refl_of Alike d)⟩
    unfold checkBreak
    split <;> rfl
  step c d w h hw := ⟨_, (h.there w hw).flat.fetch hc hw, h.of_alike (refl_of Alike c) rfl (logged_alike w d)⟩
  lookup c d w j h hw hj := by
    obtain ⟨hflat, hmade, hcode⟩ := h.flat.lookup hc hw hj
    exact ⟨⟨hflat, h.there⟩, hmade, hcode⟩

variable [HostFp] {i : JitSrc}

/-- The instruction traps on every such machine, with the same cause and value: its call fails without the trap, which
`rv64_step` delivers. -/
structure FarTrap (ram : Mem) (size : U64) (i : JitSrc) (cause tval : U64) : Prop where
  exception : cause.msb = false
  fails : ∀ c, FarMachine ram size c → c.pc = i.va → ∃ g, i.failure c = some ⟨false, { c with dbg := g }⟩
  traps : ∀ c, FarMachine ram size c → ∃ g, i.perform c = .error () (trap { c with dbg := g } cause tval)

/-- Integer words that leave `x4` alone, and words that trap. -/
inductive FarWord (ram : Mem) (size : U64) (i : JitSrc) : Prop
  | int (h : IntOpcode i.word) (hm : ¬ JitMismatch i.word) (hval : ∀ x, intValue i.word i.va x ≠ none) (hrd : rd i.word ≠ 4)
  | traps (cause tval : U64) (h : FarTrap ram size i cause tval)

theorem FarWord.trap_of_error (h : FarWord ram size i) (hperform : i.perform d = .error () e) :
    ∃ cause tval, FarTrap ram size i cause tval := by
  cases h with
  | traps cause tval h => exact ⟨cause, tval, h⟩
  | int hint _ hval _ =>
    obtain ⟨v, hv⟩ := Option.ne_none_iff_exists'.1 (hval d.x)
    rw [JitSrc.perform_int hint, hv] at hperform
    cases hperform

/-- An integer word leaves the supervisor where it is. -/
theorem FarMachine.perform_int (h : FarMachine ram size d) (hint : IntOpcode i.word)
    (hval : ∀ x, intValue i.word i.va x ≠ none) (hrd : rd i.word ≠ 4) :
    ∃ e, i.perform d = .ok () e ∧ e.pc = i.next ∧ FarMachine ram size e := by
  obtain ⟨v, hv⟩ := Option.ne_none_iff_exists'.1 (hval d.x)
  refine ⟨retire i.next (d.wr (rd i.word) v), by rw [JitSrc.perform_int hint, hv], rfl,
    ⟨h.flat.place, h.flat.ram, h.flat.size, h.flat.running, rfl⟩, h.priv, h.csr, ?_⟩
  show (d.wr (rd i.word) v).x 4 = far
  rw [wr_x, if_neg (by decide), if_neg (Ne.symm hrd), h.x]

theorem FarWord.completes (h : FarWord ram size i) (hc : FlatCode ram size code) (hw : code i.va = some i.word)
    (hsup : i.emitted.supported = true) : Completes JitSrc.perform (Far ram size code) i := by
  intro s d e hsim hpc hrun
  have hfar := hsim.there i.word (by rw [hpc]; exact hw)
  cases h with
  | traps cause tval h =>
    obtain ⟨g, htrap⟩ := h.traps d hfar
    rw [htrap] at hrun
    cases hrun
  | int hint hm hval hrd =>
    obtain ⟨s', hops, hflat⟩ := flat_int hc hw hint hm hsup s d e hsim.flat hpc hrun
    obtain ⟨e', hone, -, hfar'⟩ := hfar.perform_int hint hval hrd
    rw [hone] at hrun
    cases hrun
    exact ⟨s', hops, hflat, fun _ _ => hfar'⟩

/-- **Flat code of such words traps alike in a block and in the interpreter.** -/
theorem far_precise (hc : FlatCode ram size code) (hout : code 0 = none)
    (hkind : ∀ i : JitSrc, code i.va = some i.word → i.emitted.supported = true → FarWord ram size i) :
    PreciseGuest code (Far ram size code) where
  seen := Far.seen
  quiet c d y g h := h.of_alike ⟨g, c.jit, y, rfl⟩ rfl (refl_of Alike d)
  completes i hw hsup := (hkind i hw hsup).completes hc hw hsup
  fails i c d e n hw hsup hsim hpc htrap := by
    obtain ⟨cause, tval, h⟩ := (hkind i hw hsup).trap_of_error htrap
    have hcode : code d.pc = some i.word := by rw [hpc, hw]
    have hfar := hsim.machine hcode
    have hva : c.pc = i.va := hsim.flat.pc.trans hpc
    obtain ⟨g, hfail⟩ := h.fails c ⟨⟨hfar.flat.place, hfar.flat.ram, hfar.flat.size, hfar.flat.running, hfar.flat.zero⟩,
      hfar.priv, hfar.csr, hfar.x⟩ hva
    exact ⟨_, hfail, (fun h => nomatch h), fun _ => ⟨d, hsim.of_alike ⟨g, c.jit, c.cycle, rfl⟩ rfl (refl_of Alike d), hpc, htrap⟩⟩
  performs i c d e hw hsup hsim hpc htrap := by
    obtain ⟨cause, tval, h⟩ := (hkind i hw hsup).trap_of_error htrap
    have hcode : code d.pc = some i.word := by rw [hpc, hw]
    obtain ⟨g, hc'⟩ := h.traps c (hsim.machine hcode)
    obtain ⟨g', hd'⟩ := h.traps d (hsim.there _ hcode)
    rw [hd'] at htrap
    cases htrap
    exact ⟨_, hc', hsim.trap hcode hout h.exception tval g g'⟩

theorem JitSrc.perform_error (hfull : isCompressed i.word = false) (h : execInsn i.word i.va i.next c = .error () e) :
    i.perform c = .error () e := by
  rw [JitSrc.perform_full hfull, h]

theorem farTrap_illegal (hfull : isCompressed i.word = false) (h : IsFpIllegal i.word) :
    FarTrap ram size i excIllegalInsn (i.word.setWidth 64) where
  exception := by decide
  fails c hfar hpc := by
    have hword : i.insn = i.word := if_neg (by rw [hfull]; decide)
    refine ⟨c.dbg, ?_⟩
    unfold JitSrc.failure
    rw [← hpc, hword]
    simp only [h.1]
    rw [rv64FpExec_illegal h, hfar.markFsDirty]
    rfl
  traps c hfar := by
    refine ⟨c.dbg, ?_⟩
    have hexec : execFp i.word i.next c = .error () (trap c excIllegalInsn (i.word.setWidth 64)) := by
      unfold execFp
      rw [rv64FpExec_illegal h, hfar.markFsDirty]
      rfl
    refine JitSrc.perform_error hfull ?_
    unfold execInsn
    rw [get_bind_apply]
    simp only [h.1]
    exact hexec

/-- `ld x3, 0(x4)`. -/
theorem farTrap_load (hram : ram.read 0xFF8 8 = 0) (hw : i.word = 0x00023183) :
    FarTrap ram 0x1000 i excLoadPageFault far where
  exception := by decide
  fails c hfar hpc := by
    have hword : i.insn = 0x00023183 := by
      unfold JitSrc.insn
      rw [hw]
      rfl
    have haddr : c.jitX 4 + 0 = far := (BitVec.add_zero _).trans hfar.x
    refine ⟨c.dbg, ?_⟩
    unfold JitSrc.failure
    rw [← hpc, hword]
    show accessFailure (rv64CpuLoad (c.jitX 4 + 0) 8 .read c) = _
    rw [haddr, hfar.load hram]
    rfl
  traps c hfar := by
    have haddr : c.x 4 + 0 = far := (BitVec.add_zero _).trans hfar.x
    have hload : orTrap (rv64CpuLoad (c.x 4 + 0) 8 .read) (c.x 4 + 0) c = .error () (trap c excLoadPageFault far) := by
      unfold orTrap
      rw [haddr, hfar.load hram]
    have hexec : execLoad 0x00023183 i.next c = .error () (trap c excLoadPageFault far) := by
      unfold execLoad
      rw [get_bind_apply]
      exact bind_of_error hload
    refine ⟨c.dbg, JitSrc.perform_error (by rw [hw]; decide) ?_⟩
    rw [hw]
    exact hexec

/-- `sd x3, 0(x4)`. -/
theorem farTrap_store (hram : ram.read 0xFF8 8 = 0) (hw : i.word = 0x00323023) :
    FarTrap ram 0x1000 i excStorePageFault far where
  exception := by decide
  fails c hfar hpc := by
    have hword : i.insn = 0x00323023 := by
      unfold JitSrc.insn
      rw [hw]
      rfl
    have haddr : c.jitX 4 + 0 = far := (BitVec.add_zero _).trans hfar.x
    obtain ⟨g, hlog⟩ := logStore_dbg far 8 (c.jitX 3) c
    refine ⟨g, ?_⟩
    unfold JitSrc.failure
    rw [← hpc, hword]
    show accessFailure (cpuStore (c.jitX 4 + 0) 8 (c.jitX 3) c) = _
    rw [haddr, hfar.store hram, hlog]
    rfl
  traps c hfar := by
    have haddr : c.x 4 + 0 = far := (BitVec.add_zero _).trans hfar.x
    obtain ⟨g, hlog⟩ := logStore_dbg far 8 (c.x 3) c
    have hstore : orTrap (cpuStore (c.x 4 + 0) 8 (c.x 3)) (c.x 4 + 0) c =
        .error () (trap { c with dbg := g } excStorePageFault far) := by
      unfold orTrap
      rw [haddr, hfar.store hram, hlog]
    have hexec : execStore 0x00323023 i.next c = .error () (trap { c with dbg := g } excStorePageFault far) := by
      unfold execStore
      rw [get_bind_apply]
      exact bind_of_error hstore
    refine ⟨g, JitSrc.perform_error (by rw [hw]; decide) ?_⟩
    rw [hw]
    exact hexec

end Words

/-! ## A block that traps in its middle -/

/-- `addi x1, x1, 1` and the word, before an `ecall`. -/
def trapProgram (w : U32) : List U32 := [0x00108093, w] ++ [0x00000073]

/-- A supervisor at the program, with the far address in `x4`. -/
def trapCpu (w : U32) : Cpu :=
  let c := textCpu (trapProgram w)
  { c with priv := privS, csr := farCsr, tlb := pageTlb, x := setAt c.x 4 far }

/-- An illegal floating-point word, `ld x3, 0(x4)` and `sd x3, 0(x4)`. -/
def trapWords : List U32 := [0xFE000053, 0x00023183, 0x00323023]

theorem mem_trapWords {w : U32} (h : w ∈ trapWords) : w = 0xFE000053 ∨ w = 0x00023183 ∨ w = 0x00323023 := by
  simpa [trapWords] using h

section Programs

local instance trapNet : NetDevice := NetDevice.silent
local instance trapFp : HostFp := HostFp.zero

variable {w : U32}

theorem trapCpu_far (w : U32) : FarMachine (textRam (trapProgram w)) 0x1000 (trapCpu w) :=
  ⟨⟨.inr ⟨rfl, (by decide : privS ≠ privU), by decide⟩, rfl, rfl, rfl, rfl⟩, rfl, rfl, rfl⟩

theorem trapProgram_flat (hw : w ∈ trapWords) :
    FlatCode (textRam (trapProgram w)) 0x1000 (textCode (trapProgram w)) := by
  refine flatCode_ecall (by simp) fun v hv => ?_
  rcases List.mem_cons.1 hv with rfl | hv
  · decide
  · rw [List.mem_singleton.1 hv]
    rcases mem_trapWords hw with rfl | rfl | rfl <;> decide

theorem farTrap_word (hw : w ∈ trapWords) {i : JitSrc} (hi : i.word = w) :
    ∃ cause tval, FarTrap (textRam (trapProgram w)) 0x1000 i cause tval := by
  rcases mem_trapWords hw with rfl | rfl | rfl
  · exact ⟨_, _, farTrap_illegal (by rw [hi]; decide) (by rw [hi]; exact ⟨rfl, rfl⟩)⟩
  · exact ⟨_, _, farTrap_load (by decide +kernel) hi⟩
  · exact ⟨_, _, farTrap_store (by decide +kernel) hi⟩

theorem trapProgram_word (hw : w ∈ trapWords) (i : JitSrc) (hi : textCode (trapProgram w) i.va = some i.word)
    (hsup : i.emitted.supported = true) : FarWord (textRam (trapProgram w)) 0x1000 i := by
  rcases List.mem_cons.1 (textCode_supported hi hsup) with haddi | htrap
  · refine .int (by rw [haddi]; decide) (by rw [haddi]; decide) (fun x hx => ?_) (by rw [haddi]; decide)
    rw [haddi] at hx
    cases hx
  · obtain ⟨cause, tval, h⟩ := farTrap_word hw (List.mem_singleton.1 htrap)
    exact .traps cause tval h

/-- The second instruction of the program traps once. -/
def TrapsOnce (w : U32) : Prop := DeliversTrap 0 (jitLoop.enter 100 (trapCpu w)) (stepTimes 2 (trapCpu w)) ∧
  (stepTimes 2 (trapCpu w)).instret = (trapCpu w).instret + 1

theorem trapPrecise_far : TrapsOnce 0xFE000053 ∧ TrapsOnce 0x00023183 ∧ TrapsOnce 0x00323023 := by
  have hall : ∀ w ∈ trapWords, TrapsOnce w := by
    intro w hw
    have hlen : 1 < (lookupBlock .init (trapCpu w)).1.src.length := by
      rcases mem_trapWords hw with rfl | rfl | rfl <;> decide +kernel
    have hirq : (jitLoop.enter 100 (trapCpu w)).cpu.irqWaiting = false := by
      rcases mem_trapWords hw with rfl | rfl | rfl <;> decide +kernel
    have hflat := trapProgram_flat hw
    have hfar := trapCpu_far w
    have hsim : Far (textRam (trapProgram w)) 0x1000 (textCode (trapProgram w)) (trapCpu w) (trapCpu w) := by
      refine ⟨⟨refl_of Alike _, hfar.flat, fun j hj n hvalid => ?_⟩, fun _ _ => hfar⟩
      obtain rfl := Option.some.inj hj
      cases hvalid
    have hfirst : textCode (trapProgram w) (trapCpu w).pc = some 0x00108093 := @textCode_at (trapProgram w) 0 (by decide)
    obtain ⟨e, hperform, hpc, hnext⟩ := (hfar.of_alike (logged_alike 0x00108093 _)).perform_int (i := ⟨ramBase, 0x00108093⟩)
      (by decide) (fun x hx => by cases hx) (by decide)
    obtain ⟨hretires, hone⟩ := retires_of hfar.flat.running ((hfar.flat.step hflat hfirst).trans hperform)
    rw [← hone] at hpc hnext
    have hsecond : textCode (trapProgram w) (rv64Step (trapCpu w)).pc = some w := by
      rw [hpc]
      exact @textCode_at (trapProgram w) 1 (by decide)
    obtain ⟨cause, tval, htrap⟩ := farTrap_word hw (i := ⟨(rv64Step (trapCpu w)).pc, w⟩) rfl
    obtain ⟨g, hlast⟩ := htrap.traps _ (hnext.of_alike (logged_alike w _))
    rw [← hnext.flat.step hflat hsecond] at hlast
    refine trapPrecise (s := jitLoop.enter 100 (trapCpu w)) 0 (far_precise hflat rfl (trapProgram_word hw)) (far_hidden hflat) rfl
      rfl hirq hsim hfirst hlen (fun n hn => ?_) (traps_of hnext.flat.running hlast).1
    obtain rfl := Nat.lt_one_iff.1 hn
    exact hretires
  exact ⟨hall _ (by decide), hall _ (by decide), hall _ (by decide)⟩

end Programs

/-! ## A trap behind a fetch that shows -/

section Ahead

local instance trapAheadNet : NetDevice := NetDevice.silent
local instance trapAheadFp : HostFp := HostFp.zero

/-- `ld x1, 0(x2)` reads the page table entry of the page behind it, where `ld x3, 0(x4)` faults: the compiler has set the A
bit that the load sees, which the interpreter sets when it gets there. -/
theorem not_trapPrecise_ahead :
    (lookupBlock .init (aheadCpu 0x00023183)).1.src.length = 2 ∧ (stepTimes 0 (aheadCpu 0x00023183)).Retires ∧
      (stepTimes 1 (aheadCpu 0x00023183)).Traps ∧
      ¬ DeliversTrap 0 (jitLoop.enter 100 (aheadCpu 0x00023183)) (stepTimes 2 (aheadCpu 0x00023183)) := by
  refine ⟨by decide +kernel, retires_iff.2 (by decide +kernel), traps_iff.2 (by decide +kernel), ?_⟩
  have hturn : (jitLoop.block 0 (jitLoop.enter 100 (aheadCpu 0x00023183)).cpu).2.x 1 ≠ (stepTimes 2 (aheadCpu 0x00023183)).x 1 ∧
      (jitTurn 0 (jitLoop.enter 100 (aheadCpu 0x00023183))).x 1 ≠ (stepTimes 2 (aheadCpu 0x00023183)).x 1 := by
    decide +kernel
  let s' : RunState := { jitLoop.enter 100 (aheadCpu 0x00023183) with cpu := jitTurn 0 (jitLoop.enter 100 (aheadCpu 0x00023183)) }
  have hnext : (jitLoop.block 0 s'.cpu).2.x 1 ≠ (stepTimes 2 (aheadCpu 0x00023183)).x 1 ∧
      (jitTurn 0 s').x 1 ≠ (stepTimes 2 (aheadCpu 0x00023183)).x 1 := by
    decide +kernel
  have hhidden {s : RunState} {d : Cpu} (h : (jitLoop.block 0 s.cpu).2.x 1 ≠ d.x 1 ∧ (jitTurn 0 s).x 1 ≠ d.x 1) : ¬ Shows 0 s d := by
    rintro (hseen | hseen)
    · exact h.1 (congrFun hseen.x 1)
    · exact h.2 (congrFun hseen.x 1)
  rintro (hshows | hshows)
  · exact hhidden hturn hshows
  · exact hhidden hnext (hshows 0 s' rfl)

end Ahead

end PgLinux
