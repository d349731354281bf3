import PgLinux.ResumeDisk
import PgLinux.Lib.Runs
/-!
# FailedBoot — a BOOT that fails over a running machine

BOOT gives up the RAM of the machine before it looks whether it can make a new one, and gives up the CPU never.  The
segments of guest RAM are numbered in the order they are made, and a machine goes by the number of its segment.
-/
namespace PgLinux

/-! ## The worker -/

/-- How `dsm_create` ends: with a segment, NULL, or an ERROR that ends the worker. -/
inductive DsmCreate where
  | segment | null | error
deriving DecidableEq

/-- The worker and its pointers into segments: `vm_ram_dsm` is the one that is mapped, `vm_ram` points into its own, mapped
or not, and `ram_dsm_handle` is exported.  `made` is a ghost: the segment on which BOOT has made the machine. -/
structure WorkerProcess where
  alive : Bool
  worker : Worker
  st : SharedVMState
  vm_ram_dsm : Option Nat
  vm_ram : Option Nat
  ram_dsm_handle : Option Nat
  next_seg : Nat
  made : Option Nat

def WorkerProcess.start (st : SharedVMState) : WorkerProcess := ⟨true, .fresh, st, none, none, none, 0, none⟩

/-- `worker_handle_cmd_boot`, from "Clean up previous DSM" on.  An ERROR that is raised later ends the worker as well, and
so does a freed chunk that BOOT does not get past. -/
def WorkerProcess.boot (s : WorkerProcess) (dsm : DsmCreate) (chunk : FreedChunk) (db : Database) (vmId : U64) : WorkerProcess :=
  let s := { s with vm_ram_dsm := none }
  match dsm with
  | .error => { s with alive := false }
  | .null =>
    let r := workerHandleCmdBoot false chunk db s.worker s.st vmId
    { s with worker := r.1, st := r.2 }
  | .segment =>
    let r := workerHandleCmdBoot true chunk db s.worker s.st vmId
    { s with
      worker := r.1
      st := r.2
      vm_ram_dsm := some s.next_seg
      vm_ram := some s.next_seg
      ram_dsm_handle := some s.next_seg
      next_seg := s.next_seg + 1
      made := if r.2.cmd_result = 0 then some s.next_seg else s.made }

/-- `VM_CMD_STEP`: a run that ends in the machine `c` and the memory `mem`. -/
def WorkerProcess.stepVm (s : WorkerProcess) (c : Cpu) (mem : BlkMem) : WorkerProcess :=
  match s.worker.vm_cpu with
  | some _ => { s with worker := { s.worker with vm_cpu := some c, mem := mem }, st := { s.st with cmd_result := 0 } }
  | none => { s with st := { s.st with cmd_result := -1, error_msg := "VM not initialized in worker" } }

/-- `VM_CMD_SEND`, `VM_CMD_WATCHPOINT` and `VM_CMD_BREAKPOINT`: the machine as they leave it. -/
def WorkerProcess.edit (s : WorkerProcess) (c : Cpu) : WorkerProcess :=
  { s with worker := { s.worker with vm_cpu := s.worker.vm_cpu.map fun _ => c } }

inductive WorkerEvent where
  | boot (dsm : DsmCreate) (chunk : FreedChunk) (db : Database) (vmId : U64)
  | step (c : Cpu) (mem : BlkMem)
  | edit (c : Cpu)
  | halt

def WorkerProcess.handle (s : WorkerProcess) (e : WorkerEvent) : WorkerProcess :=
  if s.alive then
    match e with
    | .boot dsm chunk db vmId => s.boot dsm chunk db vmId
    | .step c mem => s.stepVm c mem
    | .edit c => s.edit c
    | .halt => { s with alive := false }
  else s

/-! ## Clean failures -/

/-- The machine that can be run, and the RAM it would run on. -/
structure WorkerProcess.OwnRam (s : WorkerProcess) (seg : Nat) : Prop where
  made : s.made = some seg
  vm_ram : s.vm_ram = some seg
  mapped : s.vm_ram_dsm = some seg
  exported : s.ram_dsm_handle = some seg

/-- A live worker has no machine, or one with its own RAM. -/
def WorkerProcess.Coherent (s : WorkerProcess) : Prop :=
  s.alive = true → s.worker.vm_cpu ≠ none → ∃ seg, s.OwnRam seg

/-- There is no machine to run, or the one before with its CPU and its RAM unchanged. -/
def WorkerProcess.CleanAfter (s s' : WorkerProcess) : Prop :=
  s'.alive = false ∨ s'.worker.vm_cpu = none ∨
    s'.worker.vm_cpu = s.worker.vm_cpu ∧ s'.worker.mem.ram = s.worker.mem.ram ∧ ∃ seg, s'.OwnRam seg

def WorkerProcess.BootFails (s : WorkerProcess) (dsm : DsmCreate) (chunk : FreedChunk) (db : Database) (vmId : U64) : Prop :=
  dsm = .error ∨ (s.boot dsm chunk db vmId).st.cmd_result ≠ 0

/-- A BOOT that fails and is not clean, or a STEP of a machine on RAM that is not its own. -/
def WorkerProcess.Wrong (s : WorkerProcess) : WorkerEvent → Prop
  | .boot dsm chunk db vmId => s.alive = true ∧ s.BootFails dsm chunk db vmId ∧ ¬ s.CleanAfter (s.boot dsm chunk db vmId)
  | .step _ _ => s.alive = true ∧ s.worker.vm_cpu ≠ none ∧ ¬ ∃ seg, s.OwnRam seg
  | _ => False

/-- A BOOT that fails, and returns, while there is a machine. -/
def WorkerProcess.FailsOver (s : WorkerProcess) : WorkerEvent → Prop
  | .boot dsm chunk db vmId => s.alive = true ∧ s.BootFails dsm chunk db vmId ∧ dsm ≠ .error ∧ s.worker.vm_cpu ≠ none
  | _ => False

/-- The machine's segment is among those made. -/
def WorkerProcess.Numbered (s : WorkerProcess) : Prop := ∀ seg, s.made = some seg → seg < s.next_seg

/-! ## BOOT -/

/-- A BOOT that has its segment makes a machine, or keeps the CPU there is. -/
theorem workerHandleCmdBoot_result (dsm : Bool) (chunk : FreedChunk) (db : Database) (w : Worker) (st : SharedVMState) (vmId : U64) :
    ((workerHandleCmdBoot dsm chunk db w st vmId).2.cmd_result = 0 ∧ (workerHandleCmdBoot dsm chunk db w st vmId).1.vm_cpu ≠ none ∧
        dsm = true) ∨
      (workerHandleCmdBoot dsm chunk db w st vmId).2.cmd_result = -1 ∧
        (workerHandleCmdBoot dsm chunk db w st vmId).1.vm_cpu = w.vm_cpu := by
  cases dsm with
  | false => exact .inr ⟨rfl, rfl⟩
  | true =>
    unfold workerHandleCmdBoot
    rw [if_neg (by decide)]
    dsimp only
    by_cases hr : (restoreRam (db.vm_state vmId)).2 = true
    · rw [if_pos hr]
      exact .inl ⟨rfl, by simp [finishBoot], rfl⟩
    · rw [if_neg hr]
      by_cases ha : (loadBootAssets db.vm_assets (restoreRam (db.vm_state vmId)).1).2.complete = true
      · rw [if_pos ha]
        exact .inl ⟨rfl, by simp [finishBoot], rfl⟩
      · rw [if_neg ha]
        exact .inr ⟨rfl, rfl⟩

/-- A BOOT that returned without a machine of its own: the CPU is the one before, the RAM of the machine before is no
longer mapped. -/
structure Abandoned (s s' : WorkerProcess) : Prop where
  alive : s'.alive = s.alive
  vm_cpu : s'.worker.vm_cpu = s.worker.vm_cpu
  made : s'.made = s.made
  mapped : ∀ seg, s'.vm_ram_dsm = some seg → s.next_seg ≤ seg
  next_seg : s.next_seg ≤ s'.next_seg

section Boot

variable {s : WorkerProcess} {dsm : DsmCreate} {chunk : FreedChunk} {db : Database} {vmId : U64}

/-- **How BOOT ends**: with the worker, with a machine on RAM of its own, or with neither. -/
theorem boot_cases (s : WorkerProcess) (dsm : DsmCreate) (chunk : FreedChunk) (db : Database) (vmId : U64) :
    (dsm = .error ∧ (s.boot dsm chunk db vmId).alive = false ∧ (s.boot dsm chunk db vmId).made = s.made ∧
        (s.boot dsm chunk db vmId).next_seg = s.next_seg) ∨
      (¬ s.BootFails dsm chunk db vmId ∧ (s.boot dsm chunk db vmId).OwnRam s.next_seg ∧
        (s.boot dsm chunk db vmId).next_seg = s.next_seg + 1) ∨
      (dsm ≠ .error ∧ s.BootFails dsm chunk db vmId ∧ Abandoned s (s.boot dsm chunk db vmId)) := by
  cases dsm with
  | error => exact .inl ⟨rfl, rfl, rfl, rfl⟩
  | null =>
    refine .inr (.inr ⟨by decide, .inr ?_, ?_⟩)
    · show (-1 : Int) ≠ 0
      decide
    · refine ⟨rfl, rfl, rfl, fun _ h => ?_, Nat.le_refl _⟩
      cases h
  | segment =>
    rcases workerHandleCmdBoot_result true chunk db s.worker s.st vmId with ⟨hok, -, -⟩ | ⟨hfail, hcpu⟩
    · have hmade : (s.boot .segment chunk db vmId).made = some s.next_seg := if_pos hok
      refine .inr (.inl ⟨?_, ⟨hmade, rfl, rfl, rfl⟩, rfl⟩)
      rintro (h | h)
      · cases h
      · exact h hok
    · have hne : (workerHandleCmdBoot true chunk db s.worker s.st vmId).2.cmd_result ≠ 0 := by
        rw [hfail]
        decide
      have hmade : (s.boot .segment chunk db vmId).made = s.made := if_neg hne
      refine .inr (.inr ⟨by decide, .inr hne, rfl, hcpu, hmade, fun seg h => ?_, Nat.le_succ _⟩)
      cases h
      exact Nat.le_refl _

theorem WorkerProcess.Numbered.boot (h : s.Numbered) : (s.boot dsm chunk db vmId).Numbered := by
  intro seg hseg
  rcases boot_cases s dsm chunk db vmId with ⟨-, -, hmade, hnext⟩ | ⟨-, hown, hnext⟩ | ⟨-, -, habandoned⟩
  · rw [hmade] at hseg
    rw [hnext]
    exact h seg hseg
  · rw [hown.made] at hseg
    cases hseg
    omega
  · rw [habandoned.made] at hseg
    have hlt := h seg hseg
    have hnext := habandoned.next_seg
    omega

/-- The machine before has lost its RAM. -/
theorem Abandoned.not_ownRam {s' : WorkerProcess} (h : Abandoned s s') (hs : s.Numbered) : ¬ ∃ seg, s'.OwnRam seg := by
  rintro ⟨seg, hown⟩
  have hmade := hown.made
  rw [h.made] at hmade
  have hlt := hs seg hmade
  have hge := h.mapped seg hown.mapped
  omega

/-- **A BOOT leaves a worker in order** exactly when it does not fail over a machine. -/
theorem boot_iff (halive : s.alive = true) (hs : s.Numbered) :
    ((s.boot dsm chunk db vmId).Coherent ∧ ¬ s.Wrong (.boot dsm chunk db vmId)) ↔ ¬ s.FailsOver (.boot dsm chunk db vmId) := by
  rcases boot_cases s dsm chunk db vmId with ⟨rfl, hdead, -, -⟩ | ⟨hok, hown, -⟩ | ⟨hdsm, hfail, habandoned⟩
  · refine iff_of_true ⟨fun h => ?_, fun h => h.2.2 (.inl hdead)⟩ fun h => h.2.2.1 rfl
    rw [hdead] at h
    cases h
  · exact iff_of_true ⟨fun _ _ => ⟨_, hown⟩, fun h => hok h.2.1⟩ fun h => hok h.2.1
  · by_cases hcpu : s.worker.vm_cpu = none
    · have hnone : (s.boot dsm chunk db vmId).worker.vm_cpu = none := habandoned.vm_cpu.trans hcpu
      exact iff_of_true ⟨fun _ h => absurd hnone h, fun h => h.2.2 (.inr (.inl hnone))⟩ fun h => h.2.2.2 hcpu
    · refine iff_of_false ?_ (not_not.2 ⟨halive, hfail, hdsm, hcpu⟩)
      rintro ⟨-, hclean⟩
      refine hclean ⟨halive, hfail, ?_⟩
      rintro (hdead | hnone | ⟨-, -, hown⟩)
      · rw [habandoned.alive, halive] at hdead
        cases hdead
      · exact hcpu (habandoned.vm_cpu.symm.trans hnone)
      · exact habandoned.not_ownRam hs hown

end Boot

/-! ## Runs -/

theorem stepVm_pointers (s : WorkerProcess) (c : Cpu) (mem : BlkMem) :
    ((s.stepVm c mem).worker.vm_cpu = none ↔ s.worker.vm_cpu = none) ∧ (s.stepVm c mem).made = s.made ∧
      (s.stepVm c mem).next_seg = s.next_seg ∧ ∀ seg, (s.stepVm c mem).OwnRam seg ↔ s.OwnRam seg := by
  unfold WorkerProcess.stepVm
  cases h : s.worker.vm_cpu with
  | none => exact ⟨by simp [h], rfl, rfl, fun _ => ⟨fun o => ⟨o.1, o.2, o.3, o.4⟩, fun o => ⟨o.1, o.2, o.3, o.4⟩⟩⟩
  | some m => exact ⟨by simp, rfl, rfl, fun _ => ⟨fun o => ⟨o.1, o.2, o.3, o.4⟩, fun o => ⟨o.1, o.2, o.3, o.4⟩⟩⟩

theorem WorkerProcess.Numbered.handle {s : WorkerProcess} (h : s.Numbered) (e : WorkerEvent) : (s.handle e).Numbered := by
  unfold WorkerProcess.handle
  split
  · cases e with
    | boot dsm chunk db vmId => exact h.boot
    | step c mem =>
      obtain ⟨-, hmade, hnext, -⟩ := stepVm_pointers s c mem
      intro seg hseg
      show seg < (s.stepVm c mem).next_seg
      rw [hnext]
      exact h seg (hmade.symm.trans hseg)
    | edit c => exact h
    | halt => exact h
  · exact h

theorem WorkerProcess.handle_iff {s : WorkerProcess} (e : WorkerEvent) (hs : s.Numbered) (hc : s.Coherent) :
    ((s.handle e).Coherent ∧ ¬ s.Wrong e) ↔ ¬ s.FailsOver e := by
  by_cases halive : s.alive = true
  · unfold WorkerProcess.handle
    rw [if_pos halive]
    cases e with
    | boot dsm chunk db vmId => exact boot_iff halive hs
    | step c mem =>
      obtain ⟨hcpu, -, -, hown⟩ := stepVm_pointers s c mem
      refine iff_of_true ⟨fun _ h => ?_, fun h => h.2.2 (hc h.1 h.2.1)⟩ id
      obtain ⟨seg, hseg⟩ := hc halive (h ∘ hcpu.2)
      exact ⟨seg, (hown seg).2 hseg⟩
    | edit c =>
      refine iff_of_true ⟨fun _ h => ?_, id⟩ id
      obtain ⟨seg, hseg⟩ := hc halive fun hnone => h (by simp [WorkerProcess.edit, hnone])
      exact ⟨seg, hseg.1, hseg.2, hseg.3, hseg.4⟩
    | halt =>
      refine iff_of_true ⟨fun h => ?_, id⟩ id
      cases h
  · have hsame : s.handle e = s := if_neg halive
    rw [hsame]
    cases e with
    | boot dsm chunk db vmId => exact iff_of_true ⟨hc, fun h => halive h.1⟩ fun h => halive h.1
    | step c mem => exact iff_of_true ⟨hc, fun h => halive h.1⟩ id
    | edit c => exact iff_of_true ⟨hc, id⟩ id
    | halt => exact iff_of_true ⟨hc, id⟩ id

/-- **A worker never has the CPU of one machine beside the RAM of another**, and every BOOT that fails is clean, exactly
when no BOOT fails over a machine. -/
theorem failedBoot_iff (st : SharedVMState) (evs : List WorkerEvent) :
    (Runs.Along WorkerProcess.handle WorkerProcess.Coherent (.start st) evs ∧
        Runs.Avoids WorkerProcess.handle WorkerProcess.Wrong (.start st) evs) ↔
      Runs.Avoids WorkerProcess.handle WorkerProcess.FailsOver (.start st) evs :=
  Runs.along_and_avoids_iff (I := WorkerProcess.Numbered) (fun _ e h => h.handle e)
    (fun _ e hs hc => WorkerProcess.handle_iff e hs hc) (fun _ h => by cases h) (fun _ h => absurd rfl h) evs

/-! ## An asset that is gone -/

/-- Every asset is there, and empty. -/
def fullAssets : Database := ⟨fun _ => none, fun _ => some ⟨some ⟨fun _ => 0, 0⟩, 0⟩, fun _ _ => none⟩
def noAssets : Database := ⟨fun _ => none, fun _ => none, fun _ _ => none⟩

def bootThenFail : List WorkerEvent := [.boot .segment .intact fullAssets 1, .boot .segment .intact noAssets 1]

def idleShared : SharedVMState := ⟨rv64Init (fun _ => 0) vmRamSize, 0, [], 0, ""⟩

/-- The first machine's CPU is left with the RAM of the second. -/
theorem not_clean_bootThenFail : ¬ (Runs.Along WorkerProcess.handle WorkerProcess.Coherent (.start idleShared) bootThenFail ∧
    Runs.Avoids WorkerProcess.handle WorkerProcess.Wrong (.start idleShared) bootThenFail) := by
  rintro ⟨hcoherent, -⟩
  have hmade : (bootThenFail.foldl WorkerProcess.handle (.start idleShared)).made = some 0 := by decide
  have hmapped : (bootThenFail.foldl WorkerProcess.handle (.start idleShared)).vm_ram_dsm = some 1 := by decide
  have hcpu : (bootThenFail.foldl WorkerProcess.handle (.start idleShared)).worker.vm_cpu.isSome = true := by decide
  obtain ⟨seg, hown⟩ := hcoherent bootThenFail List.prefix_rfl rfl (Option.isSome_iff_ne_none.1 hcpu)
  cases hmade.symm.trans hown.made
  cases hmapped.symm.trans hown.mapped

end PgLinux
