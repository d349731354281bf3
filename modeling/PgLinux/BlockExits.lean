import PgLinux.BlockRuns
import PgLinux.FaultAddress
/-!
# BlockExits — how a block is left

A load, a store or a floating-point instruction of a block calls a C function.  When the call fails the block goes to its
epilogue, with the pc at the instruction and the instruction not counted.  `rv64_fp_exec` fails in two ways: it has
delivered the trap, or it leaves that to its caller as the loads and stores do.
-/
namespace PgLinux

open Prog

/-! ## Calls that fail -/

/-- A source register, as a block reads it. -/
def Cpu.jitX (c : Cpu) (r : BitVec 5) : U64 := if r = 0 then 0 else c.x r

/-- The machine after a call that failed, and whether the trap is delivered. -/
structure CallFailure where
  delivered : Bool
  cpu : Cpu

theorem JitSrc.emitted_insn {i : JitSrc} (h : i.emitted.supported = true) :
    i.emitted = emitInsn i.insn i.va (isCompressed i.word) := by
  unfold JitSrc.emitted emitWord JitSrc.insn at *
  dsimp only at *
  generalize (if isCompressed i.word then sljitUncompress (i.word.setWidth 16) else i.word) = insn at *
  by_cases hzero : isCompressed i.word = true ∧ insn = 0
  · rw [if_pos hzero] at h
    cases h
  · rw [if_neg hzero, if_neg (by simp)]

theorem jitSize_le (insn : U32) : (jitSize insn).toNat ≤ 8 := by
  unfold jitSize
  generalize funct3 insn = f
  revert f
  decide

theorem jitSize_pos (insn : U32) : 0 < (jitSize insn).toNat := by
  unfold jitSize
  generalize funct3 insn = f
  revert f
  decide

/-- An access that failed leaves the trap to the interpreter. -/
def accessFailure {α : Type} : EStateM.Result U64 Cpu α → Option CallFailure
  | .ok _ _ => none
  | .error _ c => some ⟨false, c⟩

theorem accessFailure_eq_some {α : Type} {r : EStateM.Result U64 Cpu α} {e : CallFailure} (h : accessFailure r = some e) :
    ∃ exc, r = .error exc e.cpu ∧ e.delivered = false := by
  cases r with
  | ok v c => cases h
  | error exc c =>
    cases h
    exact ⟨exc, rfl, rfl⟩

section Calls

variable [NetDevice]

/-- The code of a fault is never 0, which is how a helper says that all went well. -/
theorem faults_ne_zero (op : MemOp) {c e : Cpu} {exc : U64} (hsize : op.size ≤ 8) (h : op.Faults c exc e) : exc ≠ 0 := by
  rw [(h.failing (by omega)).1]
  cases op.access <;> decide

def fpFailure : FpResult × Cpu → Option CallFailure
  | (.ok, _) => none
  | (.illegal, c) => some ⟨false, c⟩
  | (.faulted, c) => some ⟨true, c⟩

variable [HostFp]

/-- The call the block makes for the instruction, if it makes one and it fails. -/
def JitSrc.failure (i : JitSrc) (c : Cpu) : Option CallFailure :=
  let c := { c with pc := i.va }
  match (opcode i.insn).toNat with
  | 0x03 => accessFailure (rv64CpuLoad (c.jitX (rs1 i.insn) + jitImmI i.insn) (jitSize i.insn).toNat .read c)
  | 0x23 => accessFailure (cpuStore (c.jitX (rs1 i.insn) + (jitImmS i.insn).signExtend 64) (jitSize i.insn).toNat
      (c.jitX (rs2 i.insn)) c)
  | 0x07 | 0x27 | 0x43 | 0x47 | 0x4B | 0x4F | 0x53 => fpFailure (rv64FpExec i.insn c)
  | _ => none

/-! ## Leaving the block -/

/-- The operations of a load or a store before its call. -/
def memoryOps (pc : U64) (r : BitVec 5) (imm size : U64) : List SljitOp :=
  [.mov .mov .pc (.imm pc)] ++
    (if r = 0 then [.mov .mov r1 (.imm imm)] else [.mov .mov r1 (.x r), .op2 .add r1 r1 (.imm imm)]) ++
    [.mov .mov r0 (.reg .S0), .mov .mov r2 (.imm size)]

theorem runOps_memoryOps (pc : U64) (r : BitVec 5) (imm size : U64) (s : JState) : ∃ t : JState,
    runOps none (memoryOps pc r imm size) s = (none, t) ∧ t.cpu = { s.cpu with pc := pc } ∧
      t.regs .R1 = s.cpu.jitX r + imm ∧ t.regs .R2 = size := by
  unfold memoryOps Cpu.jitX
  by_cases hr : r = 0
  · rw [if_pos hr, if_pos hr]
    exact ⟨_, rfl, rfl, (BitVec.zero_add imm).symm, rfl⟩
  · rw [if_neg hr, if_neg hr]
    exact ⟨_, rfl, rfl, rfl, rfl⟩

/-- **A call that answers anything but 0 skips the rest of the block.** -/
theorem runOps_failed {u : JState} {f : ICall} {exc : U64} {d : Cpu} (hexc : exc ≠ 0) (h : u.call f = u.returned exc d)
    {ops : List SljitOp} (hops : .label .epilogue ∉ ops) :
    runOps none (.icall f :: .cmp .notEqual r0 (.imm 0) .epilogue :: ops) u = (some .epilogue, u.returned exc d) := by
  have htarget : (u.returned exc d).target (.cmp .notEqual r0 (.imm 0) .epilogue) = some .epilogue :=
    if_pos (bne_iff_ne.2 hexc)
  show runOps ((u.call f).target (.cmp .notEqual r0 (.imm 0) .epilogue)) ops (u.call f) = _
  rw [h, htarget]
  exact runOps_skip hops _

theorem call_load_failed {u : JState} {exc : U64} {d : Cpu}
    (h : rv64CpuLoad (u.regs .R1) (u.regs .R2).toNat .read u.cpu = .error exc d) : u.call .load = u.returned exc d := by
  unfold JState.call
  dsimp only
  rw [h]

theorem call_store_failed {u : JState} {exc : U64} {d : Cpu}
    (h : cpuStore (u.regs .R1) (u.regs .R2).toNat (u.regs .R3) u.cpu = .error exc d) : u.call .store = u.returned exc d := by
  unfold JState.call
  dsimp only
  rw [h]

/-- The value of a store goes to `R3`. -/
def storeSource (r : BitVec 5) : SljitOp := if r = 0 then .mov .mov r3 (.imm 0) else .mov .mov r3 (.x r)

omit [NetDevice] [HostFp] in
theorem emitLoad_ops (insn : U32) (pc : U64) : (emitLoad insn pc).ops =
    memoryOps pc (rs1 insn) (jitImmI insn) (jitSize insn) ++ (.localBase .R3 :: .icall .load ::
      .cmp .notEqual r0 (.imm 0) .epilogue :: ([.mov .mov r0 .loc] ++ emitLoadExt insn ++ emitStoreGuest (rd insn) .R0)) := by
  simp [emitLoad, Emitted.call, emitMemoryIcall, memoryOps]

omit [NetDevice] [HostFp] in
theorem emitStore_ops (insn : U32) (pc : U64) : (emitStore insn pc).ops =
    memoryOps pc (rs1 insn) ((jitImmS insn).signExtend 64) (jitSize insn) ++
      (storeSource (rs2 insn) :: .icall .store :: [.cmp .notEqual r0 (.imm 0) .epilogue]) := by
  simp [emitStore, Emitted.call, emitMemoryIcall, memoryOps, storeSource]

/-- **A store computes its address, its size and its value**, and then calls. -/
theorem runOps_emitStore (insn : U32) (pc : U64) (s : JState) : ∃ u : JState,
    runOps none (emitStore insn pc).ops s = runOps none [.icall .store, .cmp .notEqual r0 (.imm 0) .epilogue] u ∧
      u.cpu = { s.cpu with pc := pc } ∧ u.regs .R1 = s.cpu.jitX (rs1 insn) + (jitImmS insn).signExtend 64 ∧
      u.regs .R2 = jitSize insn ∧ u.regs .R3 = s.cpu.jitX (rs2 insn) := by
  obtain ⟨t, hrun, hcpu, haddr, hsize⟩ := runOps_memoryOps pc (rs1 insn) ((jitImmS insn).signExtend 64) (jitSize insn) s
  have hvalue : s.cpu.jitX (rs2 insn) = if rs2 insn = 0 then 0 else t.cpu.x (rs2 insn) := by
    rw [hcpu]
    rfl
  rw [emitStore_ops, runOps_append, hrun, hvalue]
  unfold storeSource
  by_cases hr : rs2 insn = 0
  · rw [if_pos hr, if_pos hr]
    exact ⟨t.exec (.mov .mov r3 (.imm 0)), rfl, hcpu, haddr, hsize, rfl⟩
  · rw [if_neg hr, if_neg hr]
    exact ⟨t.exec (.mov .mov r3 (.x (rs2 insn))), rfl, hcpu, haddr, hsize, rfl⟩

theorem runOps_emitLoad_failed {insn : U32} {pc exc : U64} {s : JState} {d : Cpu}
    (h : rv64CpuLoad (s.cpu.jitX (rs1 insn) + jitImmI insn) (jitSize insn).toNat .read { s.cpu with pc := pc } = .error exc d) :
    ∃ t : JState, runOps none (emitLoad insn pc).ops s = (some .epilogue, t) ∧ t.cpu = d := by
  have hrest : Inner ([.mov .mov r0 .loc] ++ emitLoadExt insn ++ emitStoreGuest (rd insn) .R0) := by
    refine fun op hop => .inl (List.all_eq_true.1 ?_ op hop)
    simp
  have hexc : exc ≠ 0 := faults_ne_zero (.load _ _ .read) (jitSize_le insn) h
  obtain ⟨t, hrun, hcpu, haddr, hsize⟩ := runOps_memoryOps pc (rs1 insn) (jitImmI insn) (jitSize insn) s
  rw [← haddr, ← hsize, ← hcpu] at h
  rw [emitLoad_ops, runOps_append, hrun]
  exact ⟨_, runOps_failed (u := t.exec (.localBase .R3)) hexc (call_load_failed h) hrest.not_label, rfl⟩

theorem runOps_emitStore_failed {insn : U32} {pc exc : U64} {s : JState} {d : Cpu}
    (h : cpuStore (s.cpu.jitX (rs1 insn) + (jitImmS insn).signExtend 64) (jitSize insn).toNat (s.cpu.jitX (rs2 insn))
      { s.cpu with pc := pc } = .error exc d) :
    ∃ t : JState, runOps none (emitStore insn pc).ops s = (some .epilogue, t) ∧ t.cpu = d := by
  have hexc : exc ≠ 0 := faults_ne_zero (.store _ _ _) (jitSize_le insn) h
  obtain ⟨u, hrun, hcpu, haddr, hsize, hvalue⟩ := runOps_emitStore insn pc s
  rw [← haddr, ← hsize, ← hvalue, ← hcpu] at h
  exact ⟨u.returned exc d, hrun.trans (runOps_failed hexc (call_store_failed h) (by simp)), rfl⟩

theorem runOps_emitFp_failed {insn : U32} {pc : U64} {s : JState} {e : CallFailure}
    (h : fpFailure (rv64FpExec insn { s.cpu with pc := pc }) = some e) :
    ∃ t : JState, runOps none (emitFp insn pc).ops s = (some .epilogue, t) ∧ t.cpu = e.cpu := by
  cases hr : rv64FpExec insn { s.cpu with pc := pc } with
  | mk r c =>
    rw [hr] at h
    obtain ⟨t, hcpu, hrun⟩ := runOps_emitFp insn pc s hr
    cases r with
    | ok => cases h
    | illegal =>
      cases h
      exact ⟨t, hrun, hcpu⟩
    | faulted =>
      cases h
      exact ⟨t, hrun, hcpu⟩

theorem emitInsn_failed {i : JitSrc} (hsup : i.emitted.supported = true) {s : JState} {e : CallFailure}
    (h : i.failure s.cpu = some e) : ∃ t : JState, runOps none i.emitted.ops s = (some .epilogue, t) ∧ t.cpu = e.cpu := by
  rw [JitSrc.emitted_insn hsup]
  unfold JitSrc.failure at h
  unfold emitInsn
  split at h
  next hop =>
    obtain ⟨exc, hload, -⟩ := accessFailure_eq_some h
    simp only [hop]
    exact runOps_emitLoad_failed hload
  next hop =>
    obtain ⟨exc, hstore, -⟩ := accessFailure_eq_some h
    simp only [hop]
    exact runOps_emitStore_failed hstore
  all_goals first
    | cases h
    | (rename_i hop
       simp only [hop]
       exact runOps_emitFp_failed h)

/-- **A call that fails leaves the block**, with the machine as the call left it and the instruction not counted. -/
theorem JitSrc.left {i : JitSrc} (hsup : i.emitted.supported = true) {s : JState} {e : CallFailure}
    (h : i.failure s.cpu = some e) : ∃ t, runOps none i.single s = (some .epilogue, t) ∧
      t.machine = { e.cpu with instret := e.cpu.instret + s.regs .S1 } := by
  obtain ⟨t, hrun, hcpu⟩ := emitInsn_failed hsup h
  have hcount : t.regs .S1 = s.regs .S1 := JitSrc.count_of_run hrun
  refine ⟨t, ?_, by rw [JState.machine, hcpu, hcount]⟩
  unfold JitSrc.single
  rw [List.append_assoc, runOps_append, hrun]
  refine runOps_skip (fun hmem => ?_) t
  rcases List.mem_append.1 hmem with hmem | hmem
  · simp [countOp] at hmem
  · split at hmem <;> simp at hmem

end Calls

end PgLinux
