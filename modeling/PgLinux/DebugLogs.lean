import PgLinux.Rules
/-!
# DebugLogs — where the debug state changes

Stores, traps, returns and steps write the logs, each through a function of its own; nothing else touches `dbg`.  A
preorder that allows these functions allows every move of the machine.
-/
namespace PgLinux

open Prog

/-- What a preorder has to allow. -/
structure LogRules (R : Cpu → Cpu → Prop) : Prop where
  quiet : ∀ {c c' : Cpu}, c'.dbg = c.dbg → R c c'
  store : ∀ va size val c, R c (logStore va size val c)
  trap : ∀ c cause tval, R c (c.logTrap cause tval)
  backfill : ∀ spp c, R c (backfill spp c)
  insn : ∀ word c, R c (logInsn word c)

theorem trap_dbg (c : Cpu) (cause tval : U64) : (trap c cause tval).dbg = (c.logTrap cause tval).dbg := by
  unfold trap
  dsimp only
  split <;> rfl

theorem csrWriteChecked_dbg (csr : BitVec 12) (val : U64) (c : Cpu) : (csrWriteChecked csr val c).dbg = c.dbg := by
  obtain ⟨r, f, t, j, h⟩ := csrWrite_frame c csr val
  unfold csrWriteChecked
  rw [h]
  dsimp only
  split <;> rfl

section Rules

variable {R : Cpu → Cpu → Prop} [IsPreorder Cpu R]

theorem LogRules.sret (h : LogRules R) (c : Cpu) : R c (sret c) := by
  unfold PgLinux.sret
  refine trans_of R (h.quiet ?_) (h.backfill _ _)
  rfl

theorem LogRules.trapped (h : LogRules R) (c : Cpu) (cause tval : U64) : R c (PgLinux.trap c cause tval) :=
  trans_of R (h.trap c cause tval) (h.quiet (trap_dbg c cause tval))

variable [NetDevice]

theorem LogRules.translate (h : LogRules R) (va : U64) (access : AccessType) : Leads R (rv64Translate va access) :=
  leads_rv64Translate (.of_any fun _ _ => h.quiet rfl) (fun _ _ _ _ _ _ _ _ => h.quiet rfl) va access

theorem LogRules.exec (h : LogRules R) : ExecRules R where
  wr _ _ _ := h.quiet rfl
  reserve _ _ := h.quiet rfl
  load := leads_rv64CpuLoad (.of_any fun _ _ => h.quiet rfl) h.translate
  store va size val :=
    leads_bind (leads_modify (h.store va size val)) fun _ =>
      leads_storeAt (.of_any fun _ _ => h.quiet rfl) h.translate va size val
  trap := h.trapped
  jitFlush _ := h.quiet rfl

theorem LogRules.checkInterrupts (h : LogRules R) (c : Cpu) : R c (checkInterrupts c).1 := by
  have hpoll : R c (pollNet (updateMip c)) := by
    unfold pollNet
    split <;> exact h.quiet rfl
  unfold PgLinux.checkInterrupts
  dsimp only
  split
  next cause _ =>
    refine trans_of R (trans_of R hpoll (h.trapped _ cause 0)) (h.quiet ?_)
    rfl
  · exact hpoll

variable [HostFp]

theorem LogRules.rv64FpExec (h : LogRules R) (insn : U32) (c : Cpu) : R c (rv64FpExec insn c).2 := by
  refine h.exec.rv64FpExec (fun _ => h.quiet rfl) (fun _ _ => h.quiet rfl) fun d hd => ?_
  obtain ⟨x, f, rfl⟩ := fpCompute_regs _ _ d hd
  exact h.quiet rfl

theorem LogRules.execInsn (h : LogRules R) (insn : U32) (pc nextPc : U64) : Leads R (execInsn insn pc nextPc) := by
  have hsystem : Leads R (execSystem insn nextPc) :=
    h.exec.toLoad.execSystem (fun _ c => ⟨h.quiet rfl, h.sret c⟩) (fun _ => h.quiet rfl) (fun _ => h.quiet rfl) nextPc
  have hcsr : Leads R (execCsr insn nextPc) :=
    h.exec.toLoad.execCsr (fun csr val c => h.quiet (csrWriteChecked_dbg csr val c)) insn nextPc
  exact h.exec.execInsn (fun _ => h.rv64FpExec insn) (fun _ => leads_ite hsystem hcsr) pc

theorem LogRules.afterFetch (h : LogRules R) (pc : U64) (word : U32) : Leads R (afterFetch pc word) :=
  leads_bind (h.exec.toLoad.expandInsn word) fun insn =>
    leads_bind (h.execInsn insn pc _) fun _ => leads_modify fun _ => h.quiet rfl

/-- **A step looks for the breakpoint, and then leads where the logs lead.** -/
theorem LogRules.rv64Step (h : LogRules R) {c : Cpu} (hrun : c.halted = false) : R (checkBreak c) (rv64Step c) := by
  have hfetch := h.exec.toLoad.fetchInsn c.pc (checkBreak c)
  unfold PgLinux.rv64Step
  rw [if_neg (by simp [hrun]), stepBody_eq]
  cases hf : fetchInsn c.pc (checkBreak c) with
  | error e d =>
    rw [hf] at hfetch
    exact hfetch
  | ok word d =>
    rw [hf] at hfetch
    exact trans_of R (trans_of R hfetch (h.insn word d)) (h.afterFetch c.pc word _)

/-- **A block leads where the logs lead.** -/
theorem LogRules.jitExec (h : LogRules R) (undef : U64) (c : Cpu) : R c (jitExec undef c).2 :=
  h.exec.jitExec (fun _ _ => h.quiet rfl)
    (fun _ => {
      pc := fun _ _ => h.quiet rfl
      write := fun _ _ _ _ _ _ => h.quiet rfl
      load := h.exec.load
      store := h.exec.store
      fpExec := fun _ => h.rv64FpExec })
    (fun _ _ => h.quiet rfl) undef c

/-- **Every move leads where the logs lead**, if the breakpoint and the halt flag may be written too. -/
theorem LogRules.move (h : LogRules R) (hbreak : ∀ c, R c (checkBreak c))
    (htick : ∀ (c : Cpu) (b : Bool), R c { c with dbg := { c.dbg with debug_halt := b } }) (c : Cpu) (m : Move) :
    R c (m.run c) := by
  cases m with
  | step =>
    cases hrun : c.halted with
    | true =>
      unfold Move.run PgLinux.rv64Step
      rw [if_pos hrun]
      exact refl_of R c
    | false => exact trans_of R (hbreak c) (h.rv64Step hrun)
  | jit undef => exact h.jitExec undef c
  | interrupts => exact h.checkInterrupts c
  | tick mtime cycle halted pendingIrq debugHalt =>
    refine trans_of R (htick c debugHalt) (h.quiet ?_)
    rfl

end Rules

end PgLinux
