import PgLinux.ResumeDisk
import PgLinux.Lib.Runs
/-!
# Durability — a disk across HALT and BOOT

A session is BOOT, any STEPs with the flush after each, HALT and BOOT of the same id.  The flush writes the rows of
`vm_id` 1 only, at most 256 of them, and HALT does not flush.
-/
namespace PgLinux

/-- What a STEP is made of. -/
def VmEvent.IsStep : VmEvent → Prop
  | .run _ => True
  | .flush => True
  | _ => False

section Session

variable (chunk chunk' : FreedChunk)

/-- The two BOOTs find what they find in the chunks they have freed. -/
def session (id : U64) (steps : List VmEvent) : List VmEvent := .boot chunk id :: (steps ++ [.halt, .boot chunk' id])

def VmSystem.atHalt (s : VmSystem) (id : U64) (steps : List VmEvent) : VmSystem := (s.step (.boot chunk id)).run steps

def VmSystem.rebooted (s : VmSystem) (id : U64) (steps : List VmEvent) : VmSystem :=
  ((s.atHalt chunk id steps).step .halt).step (.boot chunk' id)

/-- The second BOOT brings back the disk at HALT, and the rows of the other ids are those before the session. -/
structure Durable (s : VmSystem) (id : U64) (steps : List VmEvent) : Prop where
  disk : ∀ w, (s.atHalt chunk id steps).worker = some w → w.vm_cpu.isSome = true →
    ∃ w', (s.rebooted chunk chunk' id steps).worker = some w' ∧ w'.vm_cpu.isSome = true ∧ w'.vm_disk_size = w.vm_disk_size ∧
      ∀ a, a < w.vm_disk_size → w'.mem.disk a = w.mem.disk a
  others : ∀ i, i ≠ id → ∀ k, (s.rebooted chunk chunk' id steps).db.vm_blocks i k = s.db.vm_blocks i k

end Session

/-- A flush now would write a row. -/
def VmSystem.Dirty (s : VmSystem) : Prop :=
  ∃ w bits k, s.worker = some w ∧ w.mem.vm_disk_dirty = some bits ∧ k < nblocks w.vm_disk_size ∧ bits k = true

/-- A flush that would write the rows of `vm_id` 1 for another machine, or a HALT with changed blocks still to be
flushed. -/
def LosesBlocks (s : VmSystem) : VmEvent → Prop
  | .flush => s.bootedAs ≠ 1 ∧ s.Dirty
  | .halt => ∃ k, s.behind k
  | _ => False

/-! ## The rows of a session -/

/-- A session of `id` since the state `s₀`. -/
structure InSession (s₀ : VmSystem) (id : U64) (s : VmSystem) : Prop where
  booted : s.bootedAs = id
  others : ∀ i, i ≠ id → ∀ k, s.db.vm_blocks i k = s₀.db.vm_blocks i k

theorem InSession.boot (s : VmSystem) (chunk : FreedChunk) (id : U64) : InSession s id (s.step (.boot chunk id)) := ⟨rfl, fun _ _ _ => rfl⟩

/-- A flush that is not bad writes rows of the session's own id at most. -/
theorem flushed_others {s : VmSystem} {w : Worker} (hw : s.worker = some w) (h : ¬ (s.bootedAs ≠ 1 ∧ s.Dirty)) {i : U64}
    (hi : i ≠ s.bootedAs) (k : U64) : (s.flushed w).db.vm_blocks i k = s.db.vm_blocks i k := by
  by_cases hone : s.bootedAs = 1
  · exact workerFlushDirtyBlocks_other _ _ _ _ (hone ▸ hi) k
  · have hclear : ∀ bits k, w.mem.vm_disk_dirty = some bits → k < nblocks w.vm_disk_size → bits k = false := by
      intro bits k hbits hk
      refine Bool.of_not_eq_true fun hset => h ⟨hone, w, bits, k, hw, hbits, hk, hset⟩
    have hnone := workerFlushDirtyBlocks_clear w.mem.disk w.vm_disk_size w.mem.vm_disk_dirty s.db.vm_blocks hclear
    exact congrFun (congrFun (congrArg Prod.snd hnone) i) k

theorem InSession.step {s₀ s : VmSystem} {id : U64} (h : InSession s₀ id s) {e : VmEvent} (he : e.IsStep)
    (hkeep : ¬ LosesBlocks s e) : InSession s₀ id (s.step e) := by
  unfold VmSystem.step
  cases e with
  | boot _ _ => exact he.elim
  | save _ _ => exact he.elim
  | halt => exact he.elim
  | run c' =>
    cases s.worker with
    | none => exact h
    | some w => exact ⟨h.booted, h.others⟩
  | flush =>
    cases hw : s.worker with
    | none => exact h
    | some w =>
      refine ⟨h.booted, fun i hi k => ?_⟩
      have hother : i ≠ s.bootedAs := h.booted ▸ hi
      exact (flushed_others hw hkeep hother k).trans (h.others i hi k)

theorem InSession.run {s₀ : VmSystem} {id : U64} : ∀ (steps : List VmEvent) (s : VmSystem), InSession s₀ id s →
    (∀ e ∈ steps, e.IsStep) → Runs.Avoids VmSystem.step LosesBlocks s steps → InSession s₀ id (s.run steps)
  | [], _, h, _, _ => h
  | e :: steps, s, h, hsteps, hkeep => by
    obtain ⟨he, hrest⟩ := (Runs.avoids_cons e steps).1 hkeep
    have hnow := h.step (hsteps e (List.mem_cons_self ..)) he
    exact InSession.run steps (s.step e) hnow (fun e' he' => hsteps e' (List.mem_cons_of_mem _ he')) hrest

/-! ## HALT and BOOT -/

/-- **A BOOT of an id runs on its rows over the disk asset**, wherever a machine has run before. -/
theorem boot_rows {s : VmSystem} (h : SysOk s) (chunk : FreedChunk) (id : U64)
    (hall : ∀ ram, (loadBootAssets s.db.vm_assets ram).2.complete = true) :
    ∃ w, (s.boot chunk id).worker = some w ∧ w.vm_cpu.isSome = true ∧ w.vm_disk_size = diskSizeOf s.db.vm_assets ∧
      ∀ a, a < diskSizeOf s.db.vm_assets → w.mem.disk a = rowsByte s.db id a := by
  have hw : (s.worker.getD .fresh).vm_disk_size = diskSizeOf s.db.vm_assets ∨
      (s.worker.getD .fresh).vm_disk_size = 0 := by
    cases hs : s.worker with
    | none => exact .inr rfl
    | some w => exact h.size w hs
  refine ⟨_, rfl, ?_⟩
  rcases workerHandleCmdBoot_cases chunk s.db (s.worker.getD .fresh) s.shared id with
    ⟨⟨st', ram, restored, sizes, he⟩, -⟩ | ⟨-, ⟨ram, ha⟩, -, -⟩
  · obtain ⟨hcpu, hsize, hdisk⟩ := finishBoot_disk chunk id hw st' ram restored sizes
    rw [he]
    refine ⟨hcpu, hsize, fun a ha => ?_⟩
    rw [hdisk a ha]
    exact overlayBlocks_byte (diskSizeOf_lt _) (h.sized id) ha _
  · rw [hall ram] at ha
    cases ha

section Sessions

variable [NetDevice] [HostFp]

theorem history_append : ∀ (es es' : List VmEvent) (s : VmSystem),
    History s (es ++ es') ↔ History s es ∧ History (s.run es) es'
  | [], _, _ => (iff_of_eq (true_and _)).symm
  | e :: es, es', s => by
    show s.Enabled e ∧ History (s.step e) (es ++ es') ↔ (s.Enabled e ∧ History (s.step e) es) ∧ _
    rw [history_append es es' (s.step e), and_assoc]
    rfl

/-- **A disk survives HALT and BOOT** in every session of an id, saved before or not, after any history, where no flush
writes rows of id 1 for another machine and no changed block is left when HALT comes. -/
theorem durable_of_kept (assets : VmAssets) (st : SharedVMState) (es : List VmEvent) (chunk chunk' : FreedChunk) (id : U64)
    (steps : List VmEvent) (hes : History (.init assets st) (es ++ session chunk chunk' id steps))
    (hsteps : ∀ e ∈ steps, e.IsStep)
    (hkeep : Runs.Avoids VmSystem.step LosesBlocks ((VmSystem.init assets st).run es) (session chunk chunk' id steps)) :
    Durable chunk chunk' ((VmSystem.init assets st).run es) id steps := by
  obtain ⟨hbefore, hsession⟩ := (history_append es _ _).1 hes
  have hok := SysOk.run es _ (.init assets st) hbefore
  generalize (VmSystem.init assets st).run es = s at hok hsession hkeep ⊢
  obtain ⟨hboot, hlater⟩ := hsession
  obtain ⟨hrun, -⟩ := (history_append steps _ _).1 hlater
  have hhalt : SysOk (s.atHalt chunk id steps) := SysOk.run steps _ (hok.step hboot) hrun
  obtain ⟨-, hkept⟩ := (Runs.avoids_cons _ _).1 hkeep
  obtain ⟨hkeptSteps, hkeptHalt⟩ := (Runs.avoids_append steps _).1 hkept
  have hin : InSession s id (s.atHalt chunk id steps) := InSession.run steps _ (.boot s chunk id) hsteps hkeptSteps
  have hflushed : ∀ k, ¬ (s.atHalt chunk id steps).behind k := fun k hk => ((Runs.avoids_cons _ _).1 hkeptHalt).1 ⟨k, hk⟩
  refine ⟨fun w hw hm => ?_, hin.others⟩
  obtain ⟨hsize, hlive⟩ := hhalt.live w hw hm
  have hall : ∀ ram, (loadBootAssets (s.atHalt chunk id steps).db.vm_assets ram).2.complete = true := by
    rcases hhalt.bootable with hall | ⟨hnone, -⟩
    · exact hall
    · have := machine_isSome.2 ⟨w, hw, hm⟩
      rw [hnone] at this
      cases this
  obtain ⟨w', hw', hm', hsize', hdisk'⟩ := boot_rows hhalt.halt chunk' id hall
  refine ⟨w', hw', hm', hsize'.trans hsize.symm, fun a ha => ?_⟩
  rw [hlive a ha (hflushed _), hin.booted]
  exact hdisk' a (hsize ▸ ha)

end Sessions

/-! ## Sessions of the driver -/

section Driver

local instance durableNet : NetDevice := NetDevice.silent
local instance durableFp : HostFp := HostFp.zero

/-- The driver's machine as id 2. -/
def driverDoneTwo : Cpu :=
  stepTimes 12 ((((VmSystem.init driverAssets driverShared).boot .intact 2).machine).getD driverShared.cpu)

theorem durable_driver : Durable .intact .intact (VmSystem.init driverAssets driverShared) 1 [.run driverDone, .flush] := by
  refine durable_of_kept driverAssets driverShared [] .intact .intact 1 [.run driverDone, .flush]
    ⟨rfl, ⟨rfl, driver_runs⟩, rfl, rfl, rfl, trivial⟩ (by simp [VmEvent.IsStep]) ?_
  have hone : ((VmSystem.init driverAssets driverShared).run [.boot .intact 1, .run driverDone]).bootedAs = 1 := rfl
  simp only [session, List.cons_append, List.nil_append, Runs.avoids_cons, Runs.avoids_nil, and_true]
  refine ⟨id, id, fun h => h.1 hone, fun h => ?_, id⟩
  obtain ⟨k, hk⟩ := h
  exact driver_flushed k hk

/-- The same write as id 2: the flush puts it under id 1, and the next BOOT of id 2 does not find it. -/
theorem not_durable_two :
    History (VmSystem.init driverAssets driverShared) (session .intact .intact 2 [.run driverDoneTwo, .flush]) ∧
      ¬ Durable .intact .intact (VmSystem.init driverAssets driverShared) 2 [.run driverDoneTwo, .flush] := by
  refine ⟨⟨rfl, ⟨rfl, ⟨_, rfl, stepTimes_run 12 _⟩⟩, rfl, rfl, rfl, trivial⟩, fun h => ?_⟩
  obtain ⟨w', hw', -, -, hdisk⟩ := h.disk _ rfl rfl
  cases hw'
  have hbyte := hdisk 0 (by decide +kernel)
  revert hbyte
  decide +kernel

end Driver

end PgLinux
