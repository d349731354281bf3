import PgLinux.Worker
/-!
# SaveBoot — what a saved machine is after BOOT

The restore path copies the saved image from a chunk it has freed and reads guest RAM back, and then runs through the
ordinary end of BOOT, which sets `a0` and `a1` as for a firmware entry.
-/
namespace PgLinux

/-- The worker runs the machine `c`. -/
def Worker.running (w : Worker) (c : Cpu) : Worker := { w with vm_cpu := some c }

/-- BOOT gets past the freed chunk of the row; a row without a `cpu_state` has none. -/
def FreedChunk.passes (chunk : FreedChunk) (row : Option VmStateRow) : Bool :=
  (row.bind fun row => row.cpu_state).all chunk.survives

/-- vm_state_save of the running machine, then BOOT in a worker of its own or the same one; the worker that is left, if
BOOT returns. -/
def saveThenBoot (chunk : FreedChunk) (be : Backend) (w : Worker) (c : Cpu) (st : SharedVMState) (db : Database) (w' : Worker)
    (vmId : U64) : Option Worker :=
  let st := (w.running c).sync { st with ram_size := vmRamSize }
  let r := vmStateSave be (w.running c) st db vmId
  if chunk.passes (r.1.vm_state vmId) then some (workerHandleCmdBoot true chunk r.1 w' r.2 vmId).1 else none

/-- The worker runs a machine with the registers, CSRs, reservation and RAM of `c`. -/
structure Resumes (c : Cpu) (ram : Mem) (c' : Cpu) (ram' : Mem) : Prop where
  x : c'.x = c.x
  f : c'.f = c.f
  fcsr : c'.fcsr = c.fcsr
  pc : c'.pc = c.pc
  priv : c'.priv = c.priv
  csr : c'.csr = c.csr
  reservation : c'.reservation = c.reservation
  ram : ∀ a, a < vmRamSize → ram' a = ram a

/-- The saved machine comes back. -/
def RoundTrip (chunk : FreedChunk) (be : Backend) (w : Worker) (c : Cpu) (st : SharedVMState) (db : Database) (w' : Worker)
    (vmId : U64) : Prop :=
  ∃ w'' c', saveThenBoot chunk be w c st db w' vmId = some w'' ∧ w''.vm_cpu = some c' ∧
    Resumes c w.mem.ram c' w''.mem.ram

/-- `cpu_state` in the saved row. -/
def savedImage (c : Cpu) : Cpu := { c.image with ram_size := vmRamSize }

/-- The freed chunk still has what the machine resumes with, but for `a0` and `a1`. -/
structure FreedChunk.Holds (chunk : FreedChunk) (c : Cpu) : Prop where
  x : ∀ r, r ≠ 10 → r ≠ 11 → (chunk.bytes c).x r = c.x r
  f : (chunk.bytes c).f = c.f
  fcsr : (chunk.bytes c).fcsr = c.fcsr
  pc : (chunk.bytes c).pc = c.pc
  priv : (chunk.bytes c).priv = c.priv
  csr : (chunk.bytes c).csr = c.csr
  reservation : (chunk.bytes c).reservation = c.reservation

/-! ## RAM through the large object -/

theorem loWriteBuf_size (buf : Mem) (len : U64) (existing : Option LargeObject) :
    ¬ (loWriteBuf buf len existing).size < len := by
  unfold loWriteBuf
  split
  · exact BitVec.lt_irrefl len
  next lo =>
    dsimp only
    split
    · exact BitVec.lt_irrefl len
    next h => exact h

theorem loWriteBuf_data (buf : Mem) (len : U64) (existing : Option LargeObject) (a : U64) (h : a < len) :
    (loWriteBuf buf len existing).data a = buf a := by
  unfold loWriteBuf
  split
  · exact Mem.copy_zero (fun _ => 0) buf a len.toNat h
  next lo => exact Mem.copy_zero lo.data buf a len.toNat h

/-- **A buffer written to a large object reads back**, in full. -/
theorem loReadBuf_loWriteBuf (buf dst : Mem) (len : U64) (existing : Option LargeObject) :
    (loReadBuf (some (loWriteBuf buf len existing)) dst 0 len).2 = some len ∧
      ∀ a, a < len → (loReadBuf (some (loWriteBuf buf len existing)) dst 0 len).1 a = buf a := by
  have hsize := loWriteBuf_size buf len existing
  unfold loReadBuf
  dsimp only
  rw [if_neg hsize]
  refine ⟨rfl, fun a ha => ?_⟩
  exact (Mem.copy_zero _ _ _ _ ha).trans (loWriteBuf_data buf len existing a ha)

/-! ## BOOT after the save -/

theorem workerHandleCmdBoot_restored {db : Database} {vmId : U64} (h : (restoreRam (db.vm_state vmId)).2 = true)
    (chunk : FreedChunk) (w : Worker) (st : SharedVMState) :
    workerHandleCmdBoot true chunk db w st vmId =
      finishBoot chunk db w { st with ram_size := vmRamSize, console := [] } vmId
        (restoreRam (db.vm_state vmId)).1 true (loadDiskFromDb db.vm_assets) .none := by
  unfold workerHandleCmdBoot
  rw [if_neg (by decide)]
  dsimp only
  rw [if_pos h]

theorem finishBoot_ram (chunk : FreedChunk) (db : Database) (w : Worker) (st : SharedVMState) (vmId : U64) (ram : Mem)
    (restored : Bool) (disk : Option (Mem × U64)) (sizes : BootSizes) :
    (finishBoot chunk db w st vmId ram restored disk sizes).1.mem.ram = ram := by
  cases disk <;> rfl

section Saved

variable (chunk : FreedChunk) (be : Backend) (w : Worker) (c : Cpu) (st : SharedVMState) (db : Database) (w' : Worker)
  (vmId : U64)

theorem saveThenBoot_row :
    ((vmStateSave be (w.running c) ((w.running c).sync { st with ram_size := vmRamSize }) db vmId).1.vm_state vmId) =
      some
        { cpu_state := some (savedImage c)
          console := st.console
          ram_oid := some (loWriteBuf (be.ram w) vmRamSize ((db.vm_state vmId).bind fun row => row.ram_oid))
          ram_size := vmRamSize
          disk_size := be.vm_disk_size
          instret := c.instret
          pc := c.pc
          cycle := c.cycle } := if_pos rfl

theorem saveThenBoot_eq_none_iff : saveThenBoot chunk be w c st db w' vmId = none ↔ chunk.survives (savedImage c) = false := by
  unfold saveThenBoot FreedChunk.passes
  dsimp only
  rw [saveThenBoot_row be w c st db vmId]
  cases h : chunk.survives (savedImage c) <;> simp [h]

/-- What BOOT makes of the saved image: its freed chunk with the boot registers. -/
def resumedCpu (disk : Option (Mem × U64)) : Cpu :=
  bootDevices disk.isSome (w'.newDiskSize disk) vmId { (chunk.bytes (savedImage c)).image with jit := none, tlb := .zero }

/-- **The restored worker**, where BOOT gets past the chunk: what the chunk has with the boot registers, and RAM as the
backend saved it. -/
theorem saveThenBoot_boots (hpass : chunk.survives (savedImage c) = true) :
    ∃ w'', saveThenBoot chunk be w c st db w' vmId = some w'' ∧
      w''.vm_cpu = some (resumedCpu chunk c w' vmId (loadDiskFromDb db.vm_assets)) ∧
      ∀ a, a < vmRamSize → w''.mem.ram a = be.ram w a := by
  obtain ⟨hread, hram⟩ := loReadBuf_loWriteBuf (be.ram w) (fun _ => 0) vmRamSize
    ((db.vm_state vmId).bind fun row => row.ram_oid)
  have hrow := saveThenBoot_row be w c st db vmId
  have hassets : (vmStateSave be (w.running c) ((w.running c).sync { st with ram_size := vmRamSize }) db vmId).1.vm_assets =
      db.vm_assets := rfl
  unfold saveThenBoot
  dsimp only
  generalize vmStateSave be (w.running c) ((w.running c).sync { st with ram_size := vmRamSize }) db vmId = r at hrow hassets ⊢
  have hpasses : chunk.passes (r.1.vm_state vmId) = true := by
    rw [hrow]
    exact hpass
  have hrestored : (restoreRam (r.1.vm_state vmId)).2 = true := by
    rw [hrow]
    exact beq_iff_eq.2 hread
  refine ⟨_, if_pos hpasses, ?_⟩
  rw [workerHandleCmdBoot_restored hrestored, hassets]
  refine ⟨?_, fun a ha => ?_⟩
  · show some (bootDevices _ _ vmId (bootCpu chunk true (r.1.vm_state vmId))) = _
    rw [hrow]
    rfl
  · rw [finishBoot_ram, hrow]
    exact hram a ha

variable {chunk be w c st db w' vmId}

/-- The worker that a BOOT leaves is the restored one. -/
theorem saveThenBoot_inv {w'' : Worker} (h : saveThenBoot chunk be w c st db w' vmId = some w'') :
    chunk.survives (savedImage c) = true ∧
      w''.vm_cpu = some (resumedCpu chunk c w' vmId (loadDiskFromDb db.vm_assets)) ∧
      ∀ a, a < vmRamSize → w''.mem.ram a = be.ram w a := by
  have hpass : chunk.survives (savedImage c) = true := by
    refine Bool.of_not_eq_false fun hdies => ?_
    rw [(saveThenBoot_eq_none_iff chunk be w c st db w' vmId).2 hdies] at h
    cases h
  obtain ⟨w₀, hw₀, hcpu, hram⟩ := saveThenBoot_boots chunk be w c st db w' vmId hpass
  obtain rfl : w₀ = w'' := Option.some.inj (hw₀.symm.trans h)
  exact ⟨hpass, hcpu, hram⟩

/-- **The registers come back exactly when the chunk holds them and `a0` and `a1` are what BOOT puts there.** -/
theorem bootRegisters_iff {x x' : BitVec 5 → U64} : setAt (setAt x' 10 0) 11 0x82000000 = x ↔
    (∀ r, r ≠ 10 → r ≠ 11 → x' r = x r) ∧ x 10 = 0 ∧ x 11 = 0x82000000 := by
  unfold setAt
  constructor
  · intro h
    refine ⟨fun r h10 h11 => ?_, (congrFun h 10).symm, (congrFun h 11).symm⟩
    have hr := congrFun h r
    rw [if_neg h11, if_neg h10] at hr
    exact hr
  · rintro ⟨hrest, h10, h11⟩
    funext r
    by_cases hr11 : r = 11
    · rw [if_pos hr11, hr11, h11]
    · rw [if_neg hr11]
      by_cases hr10 : r = 10
      · rw [if_pos hr10, hr10, h10]
      · rw [if_neg hr10]
        exact hrest r hr10 hr11

/-- **A machine comes back from vm_state_save and BOOT exactly when** BOOT gets past the chunk it has freed and still
finds the saved bytes there, `a0` and `a1` hold what BOOT puts there, and the saving backend's mapping shows the running
machine's RAM. -/
theorem roundTrip_iff (chunk : FreedChunk) (be : Backend) (w : Worker) (c : Cpu) (st : SharedVMState) (db : Database)
    (w' : Worker) (vmId : U64) :
    RoundTrip chunk be w c st db w' vmId ↔
      (chunk.survives (savedImage c) = true ∧ chunk.Holds (savedImage c)) ∧
        (c.x 10 = 0 ∧ c.x 11 = 0x82000000) ∧ ∀ a, a < vmRamSize → be.ram w a = w.mem.ram a := by
  constructor
  · rintro ⟨w'', c', hw'', hc', h⟩
    obtain ⟨hpass, hcpu, hram⟩ := saveThenBoot_inv hw''
    obtain rfl := Option.some.inj (hcpu.symm.trans hc')
    obtain ⟨hx, h10, h11⟩ := bootRegisters_iff.1 h.x
    exact ⟨⟨hpass, hx, h.f, h.fcsr, h.pc, h.priv, h.csr, h.reservation⟩, ⟨h10, h11⟩,
      fun a ha => (hram a ha).symm.trans (h.ram a ha)⟩
  · rintro ⟨⟨hpass, hold⟩, hargs, hmap⟩
    obtain ⟨w'', hw'', hcpu, hram⟩ := saveThenBoot_boots chunk be w c st db w' vmId hpass
    exact ⟨w'', _, hw'', hcpu, bootRegisters_iff.2 ⟨hold.x, hargs⟩, hold.f, hold.fcsr, hold.pc, hold.priv, hold.csr,
      hold.reservation, fun a ha => (hram a ha).trans (hmap a ha)⟩

end Saved

/-! ## A clobbered argument -/

/-- A machine at reset with 7 in `a0`. -/
def savedCpu : Cpu := { rv64Init (fun _ => 0) vmRamSize with x := setAt (fun _ => 0) 10 7 }

/-- `a0` comes back as 0, even where the freed chunk is still intact. -/
theorem not_roundTrip_a0 : ¬ RoundTrip .intact ⟨none, 0⟩ ⟨none, .null, false, 0⟩ savedCpu
    ⟨savedCpu, vmRamSize, [], 0, ""⟩ ⟨fun _ => none, fun _ => none, fun _ _ => none⟩ ⟨none, .null, false, 0⟩ 1 := by
  rintro ⟨w'', c', hw'', hc', h⟩
  obtain ⟨-, hcpu, -⟩ := saveThenBoot_inv hw''
  obtain rfl := Option.some.inj (hcpu.symm.trans hc')
  have h10 : (0 : U64) = 7 := congrFun h.x 10
  exact absurd h10 (by decide)

end PgLinux
