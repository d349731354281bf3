import PgLinux.Agreement
import PgLinux.BlockCode
/-!
# BlockRuns — a block does what its instructions do one by one

`Sim` relates a machine that runs blocks to one that takes the same instructions one after the other; it may forget what
the guest does not see.  Once each single instruction keeps `Sim`, so does a block of them, unless it ends at its 61st
call: then the pc is left at an instruction that is already counted.  A block fetches none of its instructions.
-/
namespace PgLinux

open Prog

/-! ## Steps -/

/-- The instruction the decoder sees. -/
def JitSrc.insn (i : JitSrc) : U32 := if isCompressed i.word then sljitUncompress (i.word.setWidth 16) else i.word

section Steps

variable [NetDevice]

/-- The step of `d` fetches the instruction. -/
structure JitSrc.At (i : JitSrc) (d : Cpu) : Prop where
  pc : d.pc = i.va
  fetch : ∃ e, fetchInsn d.pc (checkBreak d) = .ok i.word e

variable [HostFp]

/-- The step of `d` completes. -/
def Cpu.Retires (d : Cpu) : Prop := d.halted = false ∧ stepBody d = .ok () (rv64Step d)

/-- The step of `d` delivers a trap. -/
def Cpu.Traps (d : Cpu) : Prop := d.halted = false ∧ stepBody d = .error () (rv64Step d)

theorem rv64Step_running {d : Cpu} (h : d.halted = false) : rv64Step d = final (stepBody d) := by
  unfold rv64Step
  rw [if_neg (by rw [h]; decide)]

theorem retires_of {d e : Cpu} (hrun : d.halted = false) (h : stepBody d = .ok () e) : d.Retires ∧ rv64Step d = e := by
  have hstep : rv64Step d = e := by
    rw [rv64Step_running hrun, h]
    rfl
  exact ⟨⟨hrun, by rw [hstep, h]⟩, hstep⟩

theorem traps_of {d e : Cpu} (hrun : d.halted = false) (h : stepBody d = .error () e) : d.Traps ∧ rv64Step d = e := by
  have hstep : rv64Step d = e := by
    rw [rv64Step_running hrun, h]
    rfl
  exact ⟨⟨hrun, by rw [hstep, h]⟩, hstep⟩

/-- The machine that `jit_exec` hands back when the block is left now. -/
def JState.machine (s : JState) : Cpu := { s.cpu with instret := s.cpu.instret + s.regs .S1 }

/-- `rv64_step` on the instruction, from behind the fetch on. -/
def JitSrc.perform (i : JitSrc) : Exec Unit := afterFetch i.va i.word

/-- The instructions one after the other, up to the first that traps. -/
def performAll (step : JitSrc → Exec Unit) : List JitSrc → Exec Unit
  | [] => return ()
  | i :: src => do
    step i
    performAll step src

section Single

variable (step : JitSrc → Exec Unit) (Sim : Cpu → Cpu → Prop) (i : JitSrc)

/-- Where `step` completes, the block of one instruction does the same. -/
def Completes : Prop := ∀ s d e, Sim s.machine d → d.pc = i.va → step i d = .ok () e →
  ∃ s', runOps none i.single s = (none, s') ∧ Sim s'.machine e

/-- `d` is at the instruction, whose trap is still to come and leads to `e`. -/
structure JitSrc.Retries (e d : Cpu) : Prop where
  here : d.pc = i.va
  traps : i.perform d = .error () e

/-- Where `step` traps, the block of one instruction is left, with the trap delivered or still to be delivered. -/
def Stops : Prop := ∀ s d e, Sim s.machine d → d.pc = i.va → step i d = .error () e →
  ∃ s', runOps none i.single s = (some .epilogue, s') ∧ (Sim s'.machine e ∨ ∃ d', Sim s'.machine d' ∧ i.Retries e d')

end Single

end Steps

/-! ## One instruction -/

theorem JitSrc.next_ne (i : JitSrc) : i.next ≠ i.va := by
  unfold JitSrc.next insnBytes
  cases isCompressed i.word <;> grind

theorem add_ofNat_succ (v : U64) (n : Nat) : v + 1 + BitVec.ofNat 64 n = v + BitVec.ofNat 64 (n + 1) := by
  rw [BitVec.add_assoc, BitVec.ofNat_add, BitVec.add_comm 1]
  rfl

section One

variable [NetDevice] [HostFp]

theorem runOps_concat {ops : List SljitOp} (op : SljitOp) {s s' : JState} {mode : Option Label}
    (hlabel : ∀ l, op ≠ .label l) (hjump : ∀ t : JState, t.target op = none) (h : runOps none (ops ++ [op]) s = (mode, s')) :
    ∃ t, runOps none ops s = (mode, t) ∧ s' = if mode = none then t.exec op else t := by
  rw [runOps_append] at h
  cases hr : runOps none ops s with
  | mk m t =>
    rw [hr] at h
    cases m with
    | none =>
      have hstep : runOps none [op] t = (t.target op, t.exec op) := runOps_nil _ _
      rw [hstep, hjump] at h
      cases h
      exact ⟨t, rfl, (if_pos rfl).symm⟩
    | some l =>
      have hstep : runOps (some l) [op] t = (if op = .label l then none else some l, t) := runOps_nil _ _
      rw [hstep, if_neg (hlabel l)] at h
      cases h
      exact ⟨_, rfl, rfl⟩

theorem JitSrc.count_of_run {i : JitSrc} {s t : JState} {mode : Option Label}
    (h : runOps none i.emitted.ops s = (mode, t)) : t.regs .S1 = s.regs .S1 := by
  have hinner : Inner i.emitted.ops := emitWord_inner 0 i.word i.va
  have hcount := hinner.count none s
  rw [h] at hcount
  exact hcount

/-- The operations of an instruction and its count. -/
theorem JitSrc.counted {i : JitSrc} {s s' : JState} {mode : Option Label}
    (h : runOps none (i.emitted.ops ++ [countOp]) s = (mode, s')) :
    ∃ t, runOps none i.emitted.ops s = (mode, t) ∧ s'.cpu = t.cpu ∧
      s'.regs .S1 = if mode = none then s.regs .S1 + 1 else s.regs .S1 := by
  obtain ⟨t, ht, rfl⟩ := runOps_concat countOp (by simp [countOp]) (fun _ => rfl) h
  have hcount := JitSrc.count_of_run ht
  refine ⟨t, ht, ?_, ?_⟩
  · split <;> rfl
  · cases mode with
    | none =>
      rw [if_pos rfl, if_pos rfl, ← hcount]
      rfl
    | some l =>
      rw [if_neg (by simp), if_neg (by simp)]
      exact hcount

/-- **A block of one instruction counts it, unless it is left**; the pc is the last thing it writes. -/
theorem JitSrc.single_spec {i : JitSrc} {s s' : JState} {mode : Option Label} (h : runOps none i.single s = (mode, s')) :
    ∃ t, runOps none (i.emitted.ops ++ [countOp]) s = (mode, t) ∧
      s'.regs .S1 = (if mode = none then s.regs .S1 + 1 else s.regs .S1) ∧
      s' = if i.emitted.block_ended = true ∨ mode ≠ none then t else t.exec (.mov .mov .pc (.imm i.next)) := by
  unfold JitSrc.single at h
  cases hend : i.emitted.block_ended with
  | true =>
    rw [hend, if_pos rfl, List.append_nil] at h
    obtain ⟨-, -, -, hcount⟩ := JitSrc.counted h
    exact ⟨s', h, hcount, by simp⟩
  | false =>
    rw [hend] at h
    obtain ⟨t, ht, rfl⟩ := runOps_concat (.mov .mov .pc (.imm i.next)) (by simp) (fun _ => rfl) h
    obtain ⟨-, -, -, hcount⟩ := JitSrc.counted ht
    refine ⟨t, ht, ?_, ?_⟩
    · rw [← hcount]
      split <;> rfl
    · cases mode <;> simp

/-- **A call that completes leaves the pc at its instruction.** -/
theorem JitSrc.pc_of_calls {i : JitSrc} (hcall : i.calls = true) {s t : JState}
    (h : runOps none i.emitted.ops s = (none, t)) : t.cpu.pc = i.va := by
  obtain ⟨insn, compressed, he, hjump⟩ := JitSrc.emitted_of_calls hcall
  rw [he] at h
  rcases (emitInsn_call hjump).2 with ⟨ops, hops, hconfined⟩ | hfp
  · have hpc := runOps_pc hconfined none (s.exec (.mov .mov .pc (.imm i.va)))
    rw [hops] at h
    have hrest : runOps none ops (s.exec (.mov .mov .pc (.imm i.va))) = (none, t) := h
    rw [hrest] at hpc
    exact hpc
  · rw [hfp] at h
    cases hr : rv64FpExec insn { s.cpu with pc := i.va } with
    | mk r c =>
      obtain ⟨t', ht', hrun'⟩ := runOps_emitFp insn i.va s hr
      rw [hrun'] at h
      cases r with
      | ok =>
        cases h
        rw [ht', rv64FpExec_ok hr]
      | illegal => cases h
      | faulted => cases h

theorem JitSrc.single_pc {i : JitSrc} (hend : i.emitted.block_ended = false) {s s' : JState}
    (h : runOps none i.single s = (none, s')) : s'.machine.pc = i.next := by
  obtain ⟨t, -, -, hs⟩ := JitSrc.single_spec h
  rw [hend, if_neg (by simp)] at hs
  rw [hs]
  rfl

end One

/-! ## Blocks -/

section Blocks

variable [NetDevice] [HostFp]

variable {step : JitSrc → Exec Unit} {Sim : Cpu → Cpu → Prop} {jumps : Nat} {pc : U64} {src : List JitSrc}
  {ops : List SljitOp} {s : JState} {d e : Cpu}

theorem runOps_loads : ∀ {ops : List SljitOp}, (∀ op ∈ ops, ∃ r, op = emitLoadGuest .R0 r ∨ op = emitLoadGuest .R1 r) →
    ∀ s : JState, ∃ s', runOps none ops s = (none, s') ∧ s'.machine = s.machine ∧ s'.regs .S1 = s.regs .S1
  | [], _, s => ⟨s, rfl, rfl, rfl⟩
  | op :: ops, h, s => by
    obtain ⟨s', hrun, hm, hc⟩ := runOps_loads (fun o ho => h o (List.mem_cons_of_mem _ ho)) (s.exec op)
    obtain ⟨r, hop⟩ := h op List.mem_cons_self
    have hexec : s.target op = none ∧ (s.exec op).machine = s.machine ∧ (s.exec op).regs .S1 = s.regs .S1 := by
      rcases hop with rfl | rfl <;> (unfold emitLoadGuest; split <;> exact ⟨rfl, rfl, rfl⟩)
    obtain ⟨htarget, hm', hc'⟩ := hexec
    refine ⟨s', ?_, hm.trans hm', hc.trans hc'⟩
    show runOps (s.target op) ops (s.exec op) = _
    rw [htarget]
    exact hrun

/-- **A block whose instructions complete counts each once and does what they do**, unless it ends at its 61st call. -/
theorem Laid.completes (h : Laid jumps pc src ops) (hpcs : ∀ c d, Sim c d → c.pc = d.pc)
    (hcomp : ∀ i ∈ src, Completes step Sim i) (hsim : Sim s.machine d) (hpc : d.pc = pc)
    (hrun : performAll step src d = .ok () e) (hjumps : jumps ≤ 60) :
    ∃ s', runOps none ops s = (none, s') ∧ s'.regs .S1 = s.regs .S1 + BitVec.ofNat 64 src.length ∧
      (jumps + src.countP JitSrc.calls ≤ 60 → Sim s'.machine e) ∧
      (60 < jumps + src.countP JitSrc.calls → ∃ i, src.getLast? = some i ∧ i.calls = true ∧ s'.machine.pc = i.va) := by
  induction h generalizing s d with
  | stop hloads =>
    cases hrun
    obtain ⟨s', hops, hm, hc⟩ := runOps_loads hloads s
    refine ⟨s', hops, by rw [hc]; simp, fun _ => by rw [hm]; exact hsim, fun hlt => ?_⟩
    simp at hlt
    omega
  | @jump jumps i hs hend =>
    obtain ⟨_, e', hone, hrest⟩ := bind_eq_ok.1 hrun
    cases hrest
    have hcall : i.calls = false := by
      by_contra hcall
      rw [Bool.not_eq_false] at hcall
      rw [JitSrc.goes_on_of_calls hcall] at hend
      cases hend
    obtain ⟨s', hops, hsim'⟩ := hcomp i List.mem_cons_self s d _ hsim hpc hone
    obtain ⟨-, -, hcount, -⟩ := JitSrc.single_spec hops
    refine ⟨s', hops, hcount, fun _ => hsim', fun hlt => ?_⟩
    simp [hcall] at hlt
    omega
  | @limit jumps i hs hend hcall hfull =>
    obtain ⟨_, e', hone, -⟩ := bind_eq_ok.1 hrun
    obtain ⟨s', hops, -⟩ := hcomp i List.mem_cons_self s d _ hsim hpc hone
    obtain ⟨t, ht, -, -⟩ := JitSrc.single_spec hops
    obtain ⟨u, hu, hcpu, hcount⟩ := JitSrc.counted ht
    refine ⟨t, ht, hcount, fun hle => ?_, fun _ => ⟨i, rfl, hcall, ?_⟩⟩
    · simp [hcall] at hle
      omega
    · show t.cpu.pc = i.va
      rw [hcpu, JitSrc.pc_of_calls hcall hu]
  | @next jumps i hs hend hroom src ops hrest ih =>
    obtain ⟨_, e', hone, hothers⟩ := bind_eq_ok.1 hrun
    obtain ⟨s', hops, hsim'⟩ := hcomp i List.mem_cons_self s d _ hsim hpc hone
    obtain ⟨-, -, hcount, -⟩ := JitSrc.single_spec hops
    have hnext : e'.pc = i.next := (hpcs _ _ hsim').symm.trans (JitSrc.single_pc hend hops)
    have hroom' : jumps + (if i.calls then 1 else 0) ≤ 60 := by
      split
      next hcall => exact hroom hcall
      next => exact hjumps
    obtain ⟨u, hu, hcu, hle, hlt⟩ := ih (fun o ho => hcomp o (List.mem_cons_of_mem _ ho)) hsim' hnext hothers hroom'
    have hcalls : jumps + (i :: src).countP JitSrc.calls = jumps + (if i.calls then 1 else 0) + src.countP JitSrc.calls := by
      rw [List.countP_cons]
      omega
    rw [hcalls]
    refine ⟨u, ?_, ?_, hle, fun hfull => ?_⟩
    · rw [runOps_append, hops]
      exact hu
    · rw [hcu, hcount, if_pos rfl, List.length_cons, add_ofNat_succ]
    · obtain ⟨o, ho, hcall, hpco⟩ := hlt hfull
      exact ⟨o, by rw [List.getLast?_cons, ho]; rfl, hcall, hpco⟩

/-- **A block is left at its first instruction that traps**, with those before it counted. -/
theorem Laid.stops (h : Laid jumps pc src ops) (hpcs : ∀ c d, Sim c d → c.pc = d.pc)
    (hcomp : ∀ i ∈ src, Completes step Sim i) (hstops : ∀ i ∈ src, Stops step Sim i) (hsim : Sim s.machine d)
    (hpc : d.pc = pc) {k : Nat} {i : JitSrc} (hk : src[k]? = some i) {d' : Cpu}
    (hrun : performAll step (src.take k) d = .ok () d') (htrap : step i d' = .error () e) :
    ∃ s', runOps none ops s = (some .epilogue, s') ∧ s'.regs .S1 = s.regs .S1 + BitVec.ofNat 64 k ∧
      (Sim s'.machine e ∨ ∃ d'', Sim s'.machine d'' ∧ i.Retries e d'') := by
  induction h generalizing s d k with
  | stop => cases hk
  | @jump jumps i' hs hend =>
    obtain rfl : k = 0 := by simpa using (List.getElem?_eq_some_iff.1 hk).1
    cases hk
    cases hrun
    obtain ⟨s', hops, hsim'⟩ := hstops _ List.mem_cons_self s _ _ hsim hpc htrap
    obtain ⟨-, -, hcount, -⟩ := JitSrc.single_spec hops
    exact ⟨s', hops, by rw [hcount]; simp, hsim'⟩
  | @limit jumps i' hs hend hcall hfull =>
    obtain rfl : k = 0 := by simpa using (List.getElem?_eq_some_iff.1 hk).1
    cases hk
    cases hrun
    obtain ⟨s', hops, hsim'⟩ := hstops _ List.mem_cons_self s _ _ hsim hpc htrap
    obtain ⟨t, ht, hcount, hs'⟩ := JitSrc.single_spec hops
    rw [if_pos (.inr (by simp))] at hs'
    subst hs'
    exact ⟨s', ht, by rw [hcount]; simp, hsim'⟩
  | @next jumps i' hs hend hroom src ops hrest ih =>
    cases k with
    | zero =>
      cases hk
      cases hrun
      obtain ⟨s', hops, hsim'⟩ := hstops _ List.mem_cons_self s _ _ hsim hpc htrap
      obtain ⟨-, -, hcount, -⟩ := JitSrc.single_spec hops
      refine ⟨s', ?_, by rw [hcount]; simp, hsim'⟩
      rw [runOps_append, hops]
      exact runOps_skip hrest.not_label s'
    | succ k =>
      obtain ⟨_, e', hone, hothers⟩ := bind_eq_ok.1 hrun
      obtain ⟨s', hops, hsim'⟩ := hcomp i' List.mem_cons_self s d _ hsim hpc hone
      obtain ⟨-, -, hcount, -⟩ := JitSrc.single_spec hops
      have hnext : e'.pc = i'.next := (hpcs _ _ hsim').symm.trans (JitSrc.single_pc hend hops)
      obtain ⟨u, hu, hcu, hout⟩ := ih (fun o ho => hcomp o (List.mem_cons_of_mem _ ho))
        (fun o ho => hstops o (List.mem_cons_of_mem _ ho)) hsim' hnext hk hothers
      refine ⟨u, ?_, ?_, hout⟩
      · rw [runOps_append, hops]
        exact hu
      · rw [hcu, hcount, if_pos rfl, add_ofNat_succ]

/-! ## `jit_exec` -/

/-- The state in which a block starts. -/
def blockEntry (undef : U64) (c : Cpu) : JState :=
  JState.exec ⟨c, fun _ => undef, undef, false, false, undef⟩ (.mov .mov (.reg .S1) (.imm 0))

theorem blockEntry_machine (undef : U64) (c : Cpu) : (blockEntry undef c).machine = c := by
  show { c with instret := c.instret + 0 } = c
  rw [show c.instret + 0 = c.instret from BitVec.add_zero _]

/-- **`jit_exec` hands back the machine in which its block ends or is left.** -/
theorem jitExec_run {undef : U64} {c : Cpu} {j : JitState} (hjit : c.jit = some j) (hen : j.enabled = true)
    (hcode : (lookupBlock j c).1.host_code =
      some ([.mov .mov (.reg .S1) (.imm 0)] ++ ops ++ [.label .epilogue, .mov .mov r0 (.reg .S1)]))
    {mode : Option Label} {s' : JState} (hrun : runOps none ops (blockEntry undef (lookupBlock j c).2) = (mode, s'))
    (hmode : mode = none ∨ mode = some .epilogue) : jitExec undef c = (s'.regs .S1, s'.machine) := by
  have hblock : runBlock undef ([.mov .mov (.reg .S1) (.imm 0)] ++ ops ++ [.label .epilogue, .mov .mov r0 (.reg .S1)])
      (lookupBlock j c).2 = s'.exec (.mov .mov r0 (.reg .S1)) := by
    show (runOps none (ops ++ [.label .epilogue, .mov .mov r0 (.reg .S1)]) (blockEntry undef (lookupBlock j c).2)).2 = _
    rw [runOps_append, hrun]
    rcases hmode with rfl | rfl <;> rfl
  unfold jitExec
  rw [hjit]
  dsimp only
  rw [if_neg (by rw [hen]; decide), hcode]
  dsimp only
  rw [hblock]
  rfl

end Blocks

end PgLinux
