import PgLinux.RunLoop
import PgLinux.Walk
import PgLinux.Worker
import PgLinux.Lib.Runs
/-!
# GuestTime — `mtime` over runs, saves and resumes

The run loops set `mtime` to the ticks since the anchor, and every BOOT moves the anchor.  A resumed machine starts with
the `mtime` of its image, until the first update counts from the new anchor.
-/
namespace PgLinux

open Loops

/-! ## What the guest sees -/

def Cpu.mtime (c : Cpu) : U64 := c.bus.clint.mtime

/-- The time CSR. -/
def timeCsr (c : Cpu) : U64 := (csrRead c 0xC01).getD 0

/-- The two words of `mtime`, as the CLINT gives them. -/
def mtimeHalves (c : Cpu) : U64 := clintLoad c.bus.clint (clintMtime + 4) <<< 32 ||| clintLoad c.bus.clint clintMtime

/-- A load of eight bytes at `mtime`. -/
def mtimeLoad (c : Cpu) : U64 := (busLoad c.ram_size c.bus (clintBase + clintMtime) 8).1

/-- No way to read the time gives less than before. -/
structure Later (c c' : Cpu) : Prop where
  csr : timeCsr c ≤ timeCsr c'
  halves : mtimeHalves c ≤ mtimeHalves c'
  load : mtimeLoad c ≤ mtimeLoad c'

def lowWord (v : U64) : U64 := v &&& 0xFFFFFFFF

theorem mtimeHalves_eq (c : Cpu) : mtimeHalves c = c.mtime := by
  show c.mtime >>> 32 <<< 32 ||| c.mtime &&& 0xFFFFFFFF = c.mtime
  refine BitVec.eq_of_getLsbD_eq fun i hi => ?_
  rw [BitVec.getLsbD_or, BitVec.getLsbD_shiftLeft, BitVec.getLsbD_ushiftRight, BitVec.getLsbD_and, lowMask_getLsbD]
  by_cases h : i < 32
  · simp [h]
  · have hsum : 32 + (i - 32) = i := by omega
    simp [h, hi, hsum]

/-- **An eight-byte load gives the low word only.** -/
theorem mtimeLoad_eq (c : Cpu) : mtimeLoad c = lowWord c.mtime := by
  have hram : inRam c.ram_size (clintBase + clintMtime) = false := by
    have hbelow : decide (ramBase ≤ clintBase + clintMtime) = false := by decide
    unfold inRam inRange
    rw [hbelow]
    rfl
  unfold mtimeLoad busLoad
  rw [hram]
  rfl

theorem later_iff (c c' : Cpu) : Later c c' ↔ c.mtime ≤ c'.mtime ∧ lowWord c.mtime ≤ lowWord c'.mtime := by
  constructor
  · rintro ⟨hcsr, -, hload⟩
    rw [mtimeLoad_eq, mtimeLoad_eq] at hload
    exact ⟨hcsr, hload⟩
  · rintro ⟨hmtime, hlow⟩
    refine ⟨hmtime, ?_, ?_⟩
    · rw [mtimeHalves_eq, mtimeHalves_eq]
      exact hmtime
    · rw [mtimeLoad_eq, mtimeLoad_eq]
      exact hlow

instance (c c' : Cpu) : Decidable (Later c c') := decidable_of_iff _ (later_iff c c').symm

/-! ## The clock of a run loop -/

/-- The pass looks at the clock. -/
def RunState.updates (s : RunState) : Bool :=
  if s.in_wfi then s.cpu.halted && decide (s.cpu.cycle < s.max_cycles)
  else decide (s.cpu.cycle < s.max_cycles) && !s.cpu.error && decide (s.next_check_cycle ≤ s.cpu.cycle)

section Passes

variable [NetDevice]

theorem checkInterrupts_mtime (c : Cpu) : (checkInterrupts c).1.mtime = c.mtime := by
  have hpoll : (pollNet (updateMip c)).mtime = c.mtime := by
    unfold pollNet
    split <;> rfl
  unfold checkInterrupts
  dsimp only
  split
  next cause _ =>
    obtain ⟨r, p, pc, d, h⟩ := trap_frame (pollNet (updateMip c)) cause 0
    rw [h]
    exact hpoll
  · exact hpoll

theorem poll_mtime (l : RunLoop) (mtime : U64) (s : RunState) :
    (l.poll mtime s).1.cpu.mtime = if s.next_check_cycle ≤ s.cpu.cycle then mtime else s.cpu.mtime := by
  unfold RunLoop.poll
  dsimp only
  by_cases hdue : s.next_check_cycle ≤ s.cpu.cycle
  · simp only [hdue, decide_true, Bool.true_or, if_true, checkInterrupts_mtime]
    split <;> rfl
  · simp only [hdue, decide_false, Bool.false_or, if_false]
    split
    · rw [checkInterrupts_mtime]
      split <;> rfl
    · rfl

variable [HostFp]

/-- An instruction of the guest, or a block, changes `mtime`. -/
def RunLoop.GuestWrites (l : RunLoop) (h : HostInput) (s : RunState) : Prop :=
  s.in_wfi = false ∧ s.cpu.cycle < s.max_cycles ∧ s.cpu.error = false ∧
    (passCpu (l.pass h s)).mtime ≠ (l.poll h.mtime s).1.cpu.mtime

instance (l : RunLoop) (h : HostInput) (s : RunState) : Decidable (l.GuestWrites h s) :=
  inferInstanceAs (Decidable (_ ∧ _ ∧ _ ∧ _ ≠ _))

omit [HostFp] in
theorem wfi_mtime (l : RunLoop) (mtime : U64) (s : RunState) : (passCpu (l.wfi mtime s)).mtime =
    if s.cpu.halted ∧ s.cpu.cycle < s.max_cycles then mtime else s.cpu.mtime := by
  unfold RunLoop.wfi
  by_cases h : s.cpu.halted = true ∧ s.cpu.cycle < s.max_cycles
  · simp only [h, and_self, if_true]
    split <;> exact checkInterrupts_mtime _
  · simp only [h, if_false]
    split <;> rfl

/-- **A pass sets `mtime` to the ticks it is given if it looks at the clock, and leaves it alone otherwise.** -/
theorem pass_mtime {l : RunLoop} {h : HostInput} {s : RunState} (hguest : ¬ l.GuestWrites h s) :
    (passCpu (l.pass h s)).mtime = if s.updates then h.mtime else s.cpu.mtime := by
  by_cases hwfi : s.in_wfi = true
  · unfold RunLoop.pass RunState.updates
    simp [hwfi, wfi_mtime]
  by_cases hgo : s.cpu.cycle < s.max_cycles ∧ s.cpu.error = false
  · have hsame : (passCpu (l.pass h s)).mtime = (l.poll h.mtime s).1.cpu.mtime := by
      by_contra hne
      exact hguest ⟨by simpa using hwfi, hgo.1, hgo.2, hne⟩
    rw [hsame, poll_mtime]
    unfold RunState.updates
    simp [hwfi, hgo]
  · have hleave : l.pass h s = s.leave (l.fallThrough s.cpu) s.cpu := by
      unfold RunLoop.pass
      rw [if_neg hwfi, if_neg hgo]
    have hidle : s.updates = false := by
      unfold RunState.updates
      rw [if_neg hwfi]
      by_contra hup
      simp only [Bool.not_eq_false, Bool.and_eq_true, decide_eq_true_eq, Bool.not_eq_true'] at hup
      exact hgo hup.1
    rw [hleave, hidle]
    rfl

end Passes

/-! ## Runs, saves and resumes -/

/-- The machine with the locals of its loop, the shared copy, the saved image, and the anchor.  `now` is the last reading
of the host's clock, and `resumed` says that there has been no update since the anchor was set. -/
structure TimeState where
  run : RunState
  loop : Option RunLoop
  shared : Cpu
  saved : Option Cpu
  vm_boot_time_ns : U64
  now : U64
  resumed : Bool

inductive TimeEvent where
  /-- The worker takes up RUN. -/
  | run (n : U64)
  /-- One pass of its loop, with the clock at `now` if it looks. -/
  | pass (now undef : U64)
  /-- vm_state_save, which saves the shared copy. -/
  | save
  /-- BOOT with the saved image. -/
  | resume (now : U64) (disk : Bool) (diskSize vmId : U64) (mem : BlkMem)

/-- `(_now_ns - vm_boot_time_ns) / 100`. -/
def TimeState.ticks (s : TimeState) (now : U64) : U64 := (now - s.vm_boot_time_ns) / 100

/-- A machine that no loop runs. -/
def RunState.idle (c : Cpu) : RunState := ⟨c, 0, 0, 0, false⟩

def TimeState.booted (c : Cpu) (saved : Option Cpu) (now : U64) : TimeState :=
  ⟨.idle c, none, c.image, saved, now, now, true⟩

section System

variable [NetDevice] [HostFp]

/-- A pass of `l`. -/
def TimeState.passed (s : TimeState) (l : RunLoop) (now undef : U64) : TimeState :=
  let s' := { s with now := now, resumed := s.resumed && !s.run.updates }
  match l.pass ⟨s.ticks now, undef⟩ s.run with
  | .again r => { s' with run := r }
  | .exit r => { s' with run := .idle r.cpu, loop := none, shared := r.cpu.image }

def TimeState.step (s : TimeState) : TimeEvent → TimeState
  | .run n =>
    match s.loop with
    | none => { s with run := (runLoop s.run.cpu).enter n s.run.cpu, loop := some (runLoop s.run.cpu) }
    | some _ => s
  | .pass now undef =>
    match s.loop with
    | none => s
    | some l => s.passed l now undef
  | .save => { s with saved := some s.shared }
  | .resume now disk diskSize vmId mem =>
    match s.saved with
    | none => s
    | some c => .booted ((bootDevices disk diskSize vmId { c with jit := none, tlb := .zero }).attach mem) s.saved now

/-- The host's clock goes back, or the guest writes `mtime`. -/
def TimeState.Disturbed (s : TimeState) : TimeEvent → Prop
  | .pass now undef => now < s.now ∨ ∃ l ∈ s.loop, l.GuestWrites ⟨s.ticks now, undef⟩ s.run
  | .resume now _ _ _ _ => now < s.now
  | .run _ | .save => False

/-- The guest sees the time go back; a resumed guest was last seen in its image. -/
def TimeState.GoesBack (s : TimeState) (e : TimeEvent) : Prop :=
  match e with
  | .resume .. => ∃ c ∈ s.saved, ¬ Later c (s.step e).run.cpu
  | _ => ¬ Later s.run.cpu (s.step e).run.cpu

/-- The pass is the first since a resume to look at the clock, too soon after it, or the low word of the ticks has come
round. -/
def TimeState.Lags (s : TimeState) : TimeEvent → Prop
  | .pass now _ => s.loop.isSome = true ∧ s.run.updates = true ∧
    (s.resumed = true ∧ s.ticks now < s.run.cpu.mtime ∨ lowWord (s.ticks now) < lowWord s.run.cpu.mtime)
  | .run _ | .save | .resume .. => False

instance (s : TimeState) : ∀ e, Decidable (s.Disturbed e)
  | .pass .. => inferInstanceAs (Decidable (_ ∨ ∃ l ∈ s.loop, l.GuestWrites _ s.run))
  | .resume now .. => inferInstanceAs (Decidable (now < s.now))
  | .run _ | .save => inferInstanceAs (Decidable False)

instance (s : TimeState) : ∀ e, Decidable (s.GoesBack e)
  | .resume .. => inferInstanceAs (Decidable (∃ c ∈ s.saved, ¬ Later c _))
  | .run _ | .pass .. | .save => inferInstanceAs (Decidable (¬ Later s.run.cpu _))

instance (s : TimeState) : ∀ e, Decidable (s.Lags e)
  | .pass .. => inferInstanceAs (Decidable (_ ∧ _ ∧ (_ ∨ _)))
  | .run _ | .save | .resume .. => inferInstanceAs (Decidable False)

/-- Once the clock was read since the anchor was set, `mtime` is behind it. -/
structure TimeState.Anchored (s : TimeState) : Prop where
  boot : s.vm_boot_time_ns ≤ s.now
  behind : s.resumed = false → s.run.cpu.mtime ≤ s.ticks s.now

omit [NetDevice] [HostFp] in
theorem ticks_le {s : TimeState} {now now' : U64} (h : s.vm_boot_time_ns ≤ now) (hnow : now ≤ now') :
    s.ticks now ≤ s.ticks now' := by
  have hsub : now - s.vm_boot_time_ns ≤ now' - s.vm_boot_time_ns := by
    rw [BitVec.le_def] at *
    rw [BitVec.toNat_sub_of_le (by rw [BitVec.le_def]; omega), BitVec.toNat_sub_of_le (by rw [BitVec.le_def]; omega)]
    omega
  unfold TimeState.ticks
  rw [BitVec.le_def, BitVec.toNat_udiv, BitVec.toNat_udiv]
  exact Nat.div_le_div_right hsub

theorem passed_mtime {s : TimeState} {l : RunLoop} {now undef : U64} (hguest : ¬ l.GuestWrites ⟨s.ticks now, undef⟩ s.run) :
    (s.passed l now undef).run.cpu.mtime = if s.run.updates then s.ticks now else s.run.cpu.mtime := by
  rw [← pass_mtime hguest]
  unfold TimeState.passed
  dsimp only
  split
  next r hr => rw [hr]; rfl
  next r hr => rw [hr]; rfl

theorem passed_fields (s : TimeState) (l : RunLoop) (now undef : U64) :
    (s.passed l now undef).now = now ∧ (s.passed l now undef).vm_boot_time_ns = s.vm_boot_time_ns ∧
      (s.passed l now undef).resumed = (s.resumed && !s.run.updates) := by
  unfold TimeState.passed
  dsimp only
  split <;> exact ⟨rfl, rfl, rfl⟩

omit [NetDevice] [HostFp] in
theorem not_goesBack_same {c c' : Cpu} (h : c'.mtime = c.mtime) : ¬ ¬ Later c c' := by
  rw [not_not, later_iff, h]
  exact ⟨BitVec.le_refl _, BitVec.le_refl _⟩

omit [NetDevice] [HostFp] in
theorem anchored_booted (c : Cpu) (saved : Option Cpu) (now : U64) : (TimeState.booted c saved now).Anchored :=
  ⟨BitVec.le_refl _, fun h => by cases h⟩

/-- **A pass goes back exactly when it lags.** -/
theorem passed_step {s : TimeState} {l : RunLoop} {now undef : U64} (hs : s.Anchored) (hnow : s.now ≤ now)
    (hguest : ¬ l.GuestWrites ⟨s.ticks now, undef⟩ s.run) :
    (s.passed l now undef).Anchored ∧ (¬ Later s.run.cpu (s.passed l now undef).run.cpu ↔ s.run.updates = true ∧
      (s.resumed = true ∧ s.ticks now < s.run.cpu.mtime ∨ lowWord (s.ticks now) < lowWord s.run.cpu.mtime)) := by
  have hmtime := passed_mtime hguest
  obtain ⟨hf, hboot, hresumed⟩ := passed_fields s l now undef
  have hticks : (s.passed l now undef).ticks now = s.ticks now := by
    unfold TimeState.ticks
    rw [hboot]
  have hle : s.ticks s.now ≤ s.ticks now := ticks_le hs.boot hnow
  have hafter : (s.passed l now undef).vm_boot_time_ns ≤ (s.passed l now undef).now := by
    rw [hf, hboot]
    exact BitVec.le_trans hs.boot hnow
  cases hup : s.run.updates with
  | false =>
    rw [hup] at hmtime hresumed
    refine ⟨⟨hafter, fun hr => ?_⟩, by simp [not_goesBack_same hmtime]⟩
    have hsame : s.resumed = false := by simpa [hresumed] using hr
    rw [hf, hticks, hmtime]
    exact BitVec.le_trans (hs.behind hsame) hle
  | true =>
    rw [hup, if_pos rfl] at hmtime
    refine ⟨⟨hafter, fun _ => ?_⟩, ?_⟩
    · rw [hf, hticks, hmtime]
      exact BitVec.le_refl _
    · rw [later_iff, hmtime, not_and_or, BitVec.not_le, BitVec.not_le]
      cases hr : s.resumed with
      | true => simp
      | false =>
        have hnot : ¬ s.ticks now < s.run.cpu.mtime := BitVec.not_lt.2 (BitVec.le_trans (hs.behind hr) hle)
        simp [hnot]

theorem step_goesBack_iff (s : TimeState) (e : TimeEvent) (hs : s.Anchored) (he : ¬ s.Disturbed e) :
    (s.step e).Anchored ∧ (s.GoesBack e ↔ s.Lags e) := by
  cases e with
  | run n =>
    have hrun : (s.step (.run n)).run.cpu = s.run.cpu := by
      unfold TimeState.step
      cases s.loop <;> rfl
    refine ⟨?_, iff_of_false (not_goesBack_same (congrArg Cpu.mtime hrun)) id⟩
    unfold TimeState.step
    cases s.loop <;> exact ⟨hs.boot, hs.behind⟩
  | pass now undef =>
    obtain ⟨hnow, hguest⟩ := not_or.1 he
    unfold TimeState.GoesBack TimeState.Lags
    cases hl : s.loop with
    | none =>
      have hstep : s.step (.pass now undef) = s := by simp [TimeState.step, hl]
      dsimp only
      rw [hstep]
      exact ⟨hs, iff_of_false (not_goesBack_same rfl) (by simp)⟩
    | some l =>
      have hstep : s.step (.pass now undef) = s.passed l now undef := by simp [TimeState.step, hl]
      obtain ⟨hanchored, hiff⟩ := passed_step hs (BitVec.not_lt.1 hnow) fun hw => hguest ⟨l, hl, hw⟩
      dsimp only
      rw [hstep, hiff]
      exact ⟨hanchored, by simp⟩
  | save => exact ⟨⟨hs.boot, hs.behind⟩, iff_of_false (not_goesBack_same rfl) id⟩
  | resume now disk diskSize vmId mem =>
    refine ⟨?_, iff_of_false ?_ id⟩
    · unfold TimeState.step
      cases hsaved : s.saved with
      | none => exact hs
      | some c => exact anchored_booted _ _ now
    · rintro ⟨c, hc, hback⟩
      refine not_goesBack_same ?_ hback
      simp only [TimeState.step, Option.mem_def.1 hc]
      rfl

/-- **In every run, save and resume of a machine, with a clock that does not go back and a guest that does not write
`mtime`, the time the guest sees never decreases exactly when no update lags.** -/
theorem guestTime_iff (c : Cpu) (saved : Option Cpu) (now : U64) (evs : List TimeEvent)
    (hquiet : Runs.Avoids TimeState.step TimeState.Disturbed (.booted c saved now) evs) :
    Runs.Avoids TimeState.step TimeState.GoesBack (.booted c saved now) evs ↔
      Runs.Avoids TimeState.step TimeState.Lags (.booted c saved now) evs :=
  Runs.avoids_iff_avoids step_goesBack_iff (anchored_booted c saved now) hquiet

end System

/-! ## A guest that waits -/

section Instances

local instance guestTimeNet : NetDevice := NetDevice.silent
local instance guestTimeFp : HostFp := HostFp.zero

/-- CSRWI mie, 8; WFI. -/
def waitingRam : Mem := programAt [0x30445073, 0x10500073] 0 fun _ => 0

def waitingCpu : Cpu := rv64Init waitingRam 0x80000000

/-- The guest waits until the clock is at 1 s, and is saved. -/
def waitAndSave : List TimeEvent :=
  [.run 100, .pass 0 0, .pass 0 0, .pass 0 0, .pass 1000000000 0, .pass 1000000000 0, .save]

/-- A resume at 2 s, with the same RAM. -/
def resumeAndWait : List TimeEvent :=
  [.resume 2000000000 false 0 1 waitingCpu.bus.mem, .run 100, .pass 2000000000 0, .pass 2000000000 0]

/-- The wait is seen to go forward. -/
theorem guestTime_waiting : Runs.Avoids TimeState.step TimeState.GoesBack (.booted waitingCpu none 0) waitAndSave :=
  (guestTime_iff waitingCpu none 0 waitAndSave (by decide +kernel)).2 (by decide +kernel)

/-- The first update after the resume takes the time from 1 s to 0. -/
theorem not_guestTime_resumed : ¬ ∀ (c : Cpu) (saved : Option Cpu) (now : U64) (evs : List TimeEvent),
    Runs.Avoids TimeState.step TimeState.Disturbed (.booted c saved now) evs →
      Runs.Avoids TimeState.step TimeState.GoesBack (.booted c saved now) evs := by
  intro h
  have hrun := h waitingCpu none 0 (waitAndSave ++ resumeAndWait) (by decide +kernel)
  revert hrun
  decide +kernel

end Instances

end PgLinux
