import PgLinux.ExternalLine
import PgLinux.HostPointers
/-!
# AccessWidth — which accesses keep to their size (`bus_load`, `bus_store`)

Each device behind the bus decides for itself what to make of size and value.  RAM, the UART and the config space keep
to the size; a register of 32 bits answers all of them to a load of any size, and takes as many from a store.
`VIRTIO_MMIO_QUEUE_NOTIFY` and `VIRTIO_MMIO_STATUS` compare the 64-bit value.
-/
namespace PgLinux

open Prog

/-! ## The registers -/

/-- One of the two enable words of a context. -/
def enableWord (off : U64) : Bool :=
  decide (0x2000 ≤ off) && decide (off < 0x2008) || decide (0x2080 ≤ off) && decide (off < 0x2088)

def clintWidth (off : U64) : Nat :=
  if [clintMtimecmp, clintMtimecmp + 4, clintMtime, clintMtime + 4].contains off then 4 else 1

/-- Sources 8 to 10 are all that is ever pending. -/
def plicLoadWidth (off : U64) : Nat :=
  if enableWord off then 4 else if 0x1000 ≤ off ∧ off < 0x1004 then 2 else 1

def plicStoreWidth (off : U64) : Nat := if enableWord off then 4 else 1

/-- Magic, vendor, queue ready and status; the maximal queue size is 256. -/
def virtioLoadWidth (off : U64) : Nat :=
  if ([0x000, 0x00C, 0x044, 0x070] : List U64).contains off then 4 else if off = 0x034 then 2 else 1

def virtioStoreWidth (off : U64) : Nat :=
  if ([0x050, 0x070] : List U64).contains off then 8
  else if [0x014, 0x020, 0x024, 0x030, 0x038, 0x044, 0x080, 0x084, 0x090, 0x094, 0x0A0, 0x0A4].contains off then 4
  else 1

section Windows

variable (clint plic virtio : U64 → Nat)

/-- The width by device; RAM, the UART and what is not mapped deal in bytes. -/
def busWidth (addr : U64) : Nat :=
  if inRange addr clintBase clintSize then clint (addr - clintBase)
  else if inRange addr plicBase plicSize then plic (addr - plicBase)
  else if inRange addr virtioMmioBase virtioMmioSize then virtio (addr - virtioMmioBase)
  else if inRange addr (virtioMmioBase + virtioMmioSize) virtioMmioSize then
    virtio (addr - (virtioMmioBase + virtioMmioSize))
  else 1

end Windows

/-- The bytes that a load needs to hold what it answers. -/
def loadWidth : U64 → Nat := busWidth clintWidth plicLoadWidth virtioLoadWidth

/-- The bytes of the value that a store looks at. -/
def storeWidth : U64 → Nat := busWidth clintWidth plicStoreWidth virtioStoreWidth

/-! ## The law -/

/-- What is behind the bus, from boot on. -/
inductive BusReached : Bus → Prop
  | reset (ram : Mem) : BusReached (rv64Init ram vmRamSize).bus
  | devices {c : Cpu} (h : BusReached c.bus) (disk : Bool) (diskSize vmId : U64) :
    BusReached (bootDevices disk diskSize vmId c).bus
  | load {b : Bus} (h : BusReached b) (addr : U64) (size : Nat) : BusReached (busLoad vmRamSize b addr size).2
  | store {b : Bus} (h : BusReached b) (host : NetHost) (fuel : Nat) (addr : U64) (size : Nat) (val : U64) :
    BusReached (@busStore (@NetHost.device host fuel) vmRamSize b addr size val)
  | input {b : Bus} (h : BusReached b) (ch : U8) : BusReached (uartRx b ch)
  | poll {b : Bus} (h : BusReached b) (host : NetHost) (fuel : Nat) : BusReached (@Bus.poll (@NetHost.device host fuel) b)
  | clock {b : Bus} (h : BusReached b) (mtime : U64) : BusReached { b with clint := { b.clint with mtime := mtime } }
  | memory {b : Bus} (h : BusReached b) (mem : BlkMem) : BusReached { b with mem := mem }

/-- The values agree in their low `size` bytes. -/
def SameLow (size : Nat) (v v' : U64) : Prop := v.toNat % 2 ^ (8 * size) = v'.toNat % 2 ^ (8 * size)

/-- A load answers no more than its bytes. -/
def LoadFits (addr : U64) (size : Nat) : Prop :=
  ∀ b, BusReached b → (busLoad vmRamSize b addr size).1.toNat < 2 ^ (8 * size)

/-- A store depends on its bytes alone. -/
def StoreFits (addr : U64) (size : Nat) : Prop :=
  ∀ b, BusReached b → ∀ (host : NetHost) (fuel : Nat) (v v' : U64), SameLow size v v' →
    @busStore (@NetHost.device host fuel) vmRamSize b addr size v = @busStore (@NetHost.device host fuel) vmRamSize b addr size v'

/-! ## Low bytes -/

section Low

variable {size : Nat} {v v' : U64}

theorem SameLow.getLsbD (h : SameLow size v v') {j : Nat} (hj : j < 8 * size) : v.getLsbD j = v'.getLsbD j := by
  have hbit := congrArg (fun n => n.testBit j) h
  simpa [Nat.testBit_mod_two_pow, hj, BitVec.getLsbD] using hbit

theorem SameLow.setWidth (h : SameLow size v v') {w : Nat} (hw : w ≤ 8 * size) : v.setWidth w = v'.setWidth w := by
  apply BitVec.eq_of_getLsbD_eq
  intro j hj
  rw [BitVec.getLsbD_setWidth, BitVec.getLsbD_setWidth, h.getLsbD (by omega)]

theorem SameLow.byteOf (h : SameLow size v v') {i : Nat} (hi : i < size) : byteOf v i = byteOf v' i := by
  apply BitVec.eq_of_getLsbD_eq
  intro j hj
  rw [byteOf_getLsbD, byteOf_getLsbD, h.getLsbD (by omega)]

theorem SameLow.write (h : SameLow size v v') (m : Mem) (a : U64) : m.write a size v = m.write a size v' := by
  funext b
  by_cases hb : (b - a).toNat < size
  · rw [Mem.write_of_lt _ _ _ _ _ hb, Mem.write_of_lt _ _ _ _ _ hb, h.byteOf hb]
  · rw [Mem.write_of_le _ _ _ _ _ (by omega), Mem.write_of_le _ _ _ _ _ (by omega)]

/-- Half a word. -/
theorem SameLow.lowMask (h : SameLow size v v') (hsize : 4 ≤ size) : v &&& 0xFFFFFFFF = v' &&& 0xFFFFFFFF := by
  apply BitVec.eq_of_getLsbD_eq
  intro j hj
  rw [BitVec.getLsbD_and, BitVec.getLsbD_and, lowMask_getLsbD]
  by_cases hj32 : j < 32
  · rw [h.getLsbD (by omega)]
  · rw [decide_eq_false hj32, Bool.and_false, Bool.and_false]

theorem Mem.read_lt (m : Mem) (a : U64) (n : Nat) : (m.read a n).toNat < 2 ^ (8 * n) := by
  apply Nat.lt_pow_two_of_testBit
  intro j hj
  show (m.read a n).getLsbD j = false
  by_cases h64 : j < 64
  · rw [Mem.read_getLsbD m n a j h64, decide_eq_false (by omega), Bool.false_and]
  · exact BitVec.getLsbD_of_ge _ j (by omega)

theorem fits_mono {w : Nat} (hv : v.toNat < 2 ^ (8 * w)) (h : w ≤ size) : v.toNat < 2 ^ (8 * size) :=
  Nat.lt_of_lt_of_le hv (Nat.pow_le_pow_right (by decide) (by omega))

end Low

/-! ## What registers hold -/

/-- What the registers of a virtio device can answer. -/
structure VirtioDev.Plain (dev : VirtioDev) : Prop where
  numbered : dev.Numbered
  irq : dev.irq = 0 ∨ dev.irq = virtioBlkIrq ∨ dev.irq = virtioNetIrq
  device_id : dev.device_id.toNat ≤ 2
  dev_features : dev.dev_features = 0 ∨ dev.dev_features = virtioFVersion1 ||| virtioBlkFBlkSize
  int_status : dev.int_status.toNat ≤ 1
  config_gen : dev.config_gen = 0

structure PlainBus (b : Bus) : Prop where
  priority : ∀ i, (b.plic.priority i).toNat < 8
  threshold : ∀ ctx, (b.plic.threshold ctx).toNat < 8
  pending : ∀ i, b.plic.isPending i = true → i = virtioBlkIrq ∨ i = virtioNetIrq ∨ i = uart0Irq
  blk : b.virtio_blk.Plain
  net : b.virtio_net.Plain

theorem plain_or_one {v : U32} (h : v.toNat ≤ 1) : (v ||| virtioIntUsedRing).toNat ≤ 1 := by
  have hcases : v = 0 ∨ v = 1 := by
    rcases Nat.le_one_iff_eq_zero_or_eq_one.1 h with h | h
    · exact .inl (BitVec.eq_of_toNat_eq h)
    · exact .inr (BitVec.eq_of_toNat_eq h)
  rcases hcases with rfl | rfl <;> decide

/-- What a write to a register does to what can be read back unmasked. -/
structure RegsKept (dev dev' : VirtioDev) : Prop where
  dev_features : dev'.dev_features = dev.dev_features
  int_status : dev.int_status.toNat ≤ 1 → dev'.int_status.toNat ≤ 1
  config_gen : dev.config_gen = 0 → dev'.config_gen = 0

theorem virtioRegStore_kept (dev : VirtioDev) (offset val : U64) : RegsKept dev (virtioRegStore dev offset val) := by
  by_cases hsel : offset ∈ selectedRegs
  · refine virtioRegStore_selected dev hsel val (P := RegsKept dev) fun f => ?_
    unfold updQueue
    split <;> exact ⟨rfl, id, id⟩
  · simp only [selectedRegs, List.mem_cons, List.not_mem_nil, or_false, not_or] at hsel
    obtain ⟨h1, h2, h3, h4, h5, h6, h7, h8⟩ := hsel
    have hack : (dev.int_status &&& ~~~(val.setWidth 32)).toNat ≤ dev.int_status.toNat := by
      rw [BitVec.toNat_and]
      exact Nat.and_le_left
    unfold virtioRegStore
    simp only [if_neg h1, if_neg h2, if_neg h3, if_neg h4, if_neg h5, if_neg h6, if_neg h7, if_neg h8]
    split_ifs
    all_goals first
      | exact ⟨rfl, id, id⟩
      | exact ⟨rfl, Nat.le_trans hack, id⟩
      | exact ⟨rfl, fun _ => Nat.zero_le 1, fun _ => rfl⟩

theorem netFrame_kept {dev dev' : VirtioDev} (h : NetFrame dev dev') : RegsKept dev dev' := by
  obtain ⟨_, _, _, _, _, _, hint, rfl⟩ := h
  refine ⟨rfl, fun h => ?_, id⟩
  rcases hint with rfl | rfl
  · exact h
  · exact plain_or_one h

theorem virtioBlkProcessQueue_kept (dev : VirtioDev) (ramSize : U64) (qi : U32) (mem : BlkMem) :
    RegsKept dev (virtioBlkProcessQueue dev ramSize qi mem).2 := by
  unfold virtioBlkProcessQueue
  dsimp only
  split_ifs
  · exact ⟨rfl, id, id⟩
  · exact ⟨rfl, id, id⟩
  · exact ⟨rfl, id, id⟩
  · exact ⟨rfl, plain_or_one, id⟩

theorem virtioReset_host (dev : VirtioDev) : (virtioReset dev).irq = dev.irq ∧ (virtioReset dev).device_id = dev.device_id :=
  ⟨rfl, rfl⟩

theorem VirtioDev.Plain.of_kept {dev dev' : VirtioDev} (h : dev.Plain) (hnum : dev'.Numbered)
    (hid : dev'.irq = dev.irq ∧ dev'.device_id = dev.device_id) (hkept : RegsKept dev dev') : dev'.Plain where
  numbered := hnum
  irq := by
    rw [hid.1]
    exact h.irq
  device_id := by
    rw [hid.2]
    exact h.device_id
  dev_features := by
    rw [hkept.dev_features]
    exact h.dev_features
  int_status := hkept.int_status h.int_status
  config_gen := hkept.config_gen h.config_gen

section Devices

variable [NetHost]

theorem virtioMmioStore_plain {dev : VirtioDev} (h : dev.Plain) (fuel : Nat) (ramSize offset val : U64) (mem : BlkMem) :
    (@virtioMmioStore dev ramSize (NetHost.device fuel) offset val mem).2.Plain := by
  refine h.of_kept (virtioMmioStore_numbered h.numbered fuel ramSize offset val mem) ?_ ?_
  · unfold virtioMmioStore
    split
    · have hhost := virtioNotify_host fuel dev ramSize val mem
      exact ⟨hhost.irq, hhost.device_id⟩
    · by_cases hreset : offset = 0x070 ∧ val = 0
      · obtain ⟨rfl, rfl⟩ := hreset
        exact virtioReset_host dev
      · have hhost := virtioRegStore_host dev hreset
        exact ⟨hhost.irq, hhost.device_id⟩
  · unfold virtioMmioStore
    split
    · unfold virtioNotify
      split
      · split
        · exact virtioBlkProcessQueue_kept dev ramSize _ mem
        · split
          · exact netFrame_kept (device_processQueue_frame fuel dev _ mem)
          · exact ⟨rfl, id, id⟩
      · exact ⟨rfl, id, id⟩
    · exact virtioRegStore_kept dev offset val

theorem poll_plain {dev : VirtioDev} (h : dev.Plain) (fuel : Nat) (mem : BlkMem) :
    (@netPoll dev (NetHost.device fuel) mem).2.Plain := by
  have hframe := device_poll_frame fuel dev mem
  exact h.of_kept (poll_numbered h.numbered fuel mem) ⟨hframe.host.irq, hframe.host.device_id⟩ (netFrame_kept hframe)

end Devices

theorem virtioDevZero_plain : VirtioDev.zero.Plain :=
  ⟨.inr ⟨rfl, rfl, rfl⟩, .inl rfl, by decide, .inl rfl, by decide, rfl⟩

theorem bootDevices_plain {c : Cpu} (h : PlainBus c.bus) (disk : Bool) (diskSize vmId : U64) :
    PlainBus (bootDevices disk diskSize vmId c).bus where
  priority := h.priority
  threshold := h.threshold
  pending := h.pending
  blk := by
    cases disk with
    | false => exact h.blk
    | true =>
      exact ⟨.inl (show virtioBlkIrq ≠ 0 by decide), .inr (.inl rfl), show virtioDevBlk.toNat ≤ 2 by decide, .inr rfl,
        Nat.zero_le 1, rfl⟩
  net := ⟨.inl (show virtioNetIrq ≠ 0 by decide), .inr (.inr rfl), show virtioDevNet.toNat ≤ 2 by decide, .inl rfl,
    Nat.zero_le 1, rfl⟩

theorem isPending_raise_iff (p : Plic) (i irq : U32) : (p.raise irq).isPending i = true ↔ i = irq ∨ p.isPending i = true := by
  by_cases h : i = irq
  · rw [h]
    exact iff_of_true (isPending_raise_self p irq) (.inl rfl)
  · rw [isPending_raise_ne h]
    exact ⟨.inr, fun hor => hor.resolve_left h⟩

/-- A plain device raises its own source. -/
theorem VirtioDev.Plain.raise {dev : VirtioDev} (h : dev.Plain) {p : Plic}
    (hp : ∀ i, p.isPending i = true → i = virtioBlkIrq ∨ i = virtioNetIrq ∨ i = uart0Irq) (i : U32)
    (hi : (if dev.int_status ≠ 0 then p.raise dev.irq else p).isPending i = true) :
    i = virtioBlkIrq ∨ i = virtioNetIrq ∨ i = uart0Irq := by
  split at hi
  next hint =>
    rcases (isPending_raise_iff p i dev.irq).1 hi with rfl | hi
    · rcases h.irq with hirq | hirq | hirq
      · rcases h.numbered with hne | hidle
        · exact absurd hirq hne
        · exact absurd hidle.1 hint
      · exact .inl hirq
      · exact .inr (.inl hirq)
    · exact hp i hi
  next => exact hp i hi

theorem and_seven_lt (v : U32) : (v &&& 7).toNat < 8 := by
  rw [BitVec.toNat_and]
  exact Nat.lt_of_le_of_lt Nat.and_le_right (by decide)

theorem plicStore_plain {p : Plic} (hprio : ∀ i, (p.priority i).toNat < 8) (hthr : ∀ ctx, (p.threshold ctx).toNat < 8)
    (offset val : U64) : (∀ i, ((plicStore p offset val).priority i).toNat < 8) ∧
      ∀ ctx, ((plicStore p offset val).threshold ctx).toNat < 8 := by
  unfold plicStore
  dsimp only
  split_ifs
  all_goals refine ⟨fun i => ?_, fun ctx => ?_⟩
  all_goals first
    | exact hprio i
    | exact hthr ctx
    | (show (setAt p.priority _ (val.setWidth 32 &&& 7) i).toNat < 8
       unfold setAt
       split
       · exact and_seven_lt _
       · exact hprio i)
    | (show (setAt p.threshold _ (val.setWidth 32 &&& 7) ctx).toNat < 8
       unfold setAt
       split
       · exact and_seven_lt _
       · exact hthr ctx)

theorem PlainBus.claim {b : Bus} (h : PlainBus b) (offset : U64) : PlainBus { b with plic := (plicLoad b.plic offset).2 } := by
  have hclaim : ∀ ctx, PlainBus { b with plic := (plicClaim b.plic ctx 63 1).2 } := by
    intro ctx
    rcases plicClaim_first b.plic ctx 63 1 (by decide) (by decide) fun j hj => hj.pos with
      ⟨k, -, -, -, hclaimed⟩ | ⟨-, hsame⟩
    · refine ⟨?_, ?_, fun i hi => h.pending i ?_, h.blk, h.net⟩
      · rw [hclaimed.priority]
        exact h.priority
      · rw [hclaimed.threshold]
        exact h.threshold
      · rw [hclaimed.pending, Bool.and_eq_true] at hi
        exact hi.1
    · rw [hsame]
      exact h
  by_cases h0 : offset = claimOffset false
  · rw [h0, plicLoad_claim]
    exact hclaim false
  by_cases h1 : offset = claimOffset true
  · rw [h1, plicLoad_claim]
    exact hclaim true
  · rw [plicLoad_other b.plic h0 h1]
    exact h

theorem PlainBus.busLoad {b : Bus} (h : PlainBus b) (ramSize addr : U64) (size : Nat) :
    PlainBus (PgLinux.busLoad ramSize b addr size).2 := by
  unfold PgLinux.busLoad
  split
  · exact h
  unfold mmioLoad
  split
  · exact ⟨h.priority, h.threshold, h.pending, h.blk, h.net⟩
  split
  · exact h
  split
  · exact h.claim _
  split
  · exact h
  split <;> exact h

theorem PlainBus.raiseUart {b : Bus} (h : PlainBus b) (i : U32) (hi : (b.plic.raise uart0Irq).isPending i = true) :
    i = virtioBlkIrq ∨ i = virtioNetIrq ∨ i = uart0Irq := by
  rcases (isPending_raise_iff b.plic i uart0Irq).1 hi with rfl | hi
  · exact .inr (.inr rfl)
  · exact h.pending i hi

theorem PlainBus.busStore [NetHost] {b : Bus} (h : PlainBus b) (fuel : Nat) (ramSize addr : U64) (size : Nat) (val : U64) :
    PlainBus (@PgLinux.busStore (NetHost.device fuel) ramSize b addr size val) := by
  unfold PgLinux.busStore
  split
  · exact ⟨h.priority, h.threshold, h.pending, h.blk, h.net⟩
  unfold mmioStore
  split
  · dsimp only
    split
    · exact ⟨h.priority, h.threshold, h.raiseUart, h.blk, h.net⟩
    · exact ⟨h.priority, h.threshold, h.pending, h.blk, h.net⟩
  split
  · exact ⟨h.priority, h.threshold, h.pending, h.blk, h.net⟩
  split
  · obtain ⟨hprio, hthr⟩ := plicStore_plain h.priority h.threshold (addr - plicBase) val
    refine ⟨hprio, hthr, fun i hi => h.pending i ?_, h.blk, h.net⟩
    unfold Plic.isPending at hi
    rw [plicStore_pending] at hi
    exact hi
  have hraise : ∀ {dev : VirtioDev}, PlainBus { b with plic := if dev.int_status ≠ 0 then b.plic.raise dev.irq else b.plic } ↔
      ∀ i, (if dev.int_status ≠ 0 then b.plic.raise dev.irq else b.plic).isPending i = true →
        i = virtioBlkIrq ∨ i = virtioNetIrq ∨ i = uart0Irq := by
    intro dev
    refine ⟨fun hb => hb.pending, fun hb => ⟨?_, ?_, hb, h.blk, h.net⟩⟩
    · dsimp only
      split <;> exact h.priority
    · dsimp only
      split <;> exact h.threshold
  split
  · have hdev := virtioMmioStore_plain h.blk fuel ramSize (addr - virtioMmioBase) val b.mem
    have hplic := hraise.2 (hdev.raise h.pending)
    exact ⟨hplic.priority, hplic.threshold, hplic.pending, hdev, h.net⟩
  split
  · have hdev := virtioMmioStore_plain h.net fuel ramSize (addr - (virtioMmioBase + virtioMmioSize)) val b.mem
    have hplic := hraise.2 (hdev.raise h.pending)
    exact ⟨hplic.priority, hplic.threshold, hplic.pending, h.blk, hdev⟩
  · exact h

/-- **The registers of the devices stay plain.** -/
theorem BusReached.plain {b : Bus} (h : BusReached b) : PlainBus b := by
  induction h with
  | reset ram =>
    have hzero : (0 : U32).toNat < 8 := by decide
    refine ⟨fun _ => hzero, fun _ => hzero, fun i hi => ?_, virtioDevZero_plain, virtioDevZero_plain⟩
    exact absurd (BitVec.getLsbD_zero.symm.trans hi) Bool.false_ne_true
  | devices _ disk diskSize vmId ih => exact bootDevices_plain ih disk diskSize vmId
  | load _ addr size ih => exact ih.busLoad vmRamSize addr size
  | store _ host fuel addr size val ih => exact ih.busStore fuel vmRamSize addr size val
  | input _ ch ih => exact ⟨ih.priority, ih.threshold, ih.raiseUart, ih.blk, ih.net⟩
  | poll _ host fuel ih => exact ⟨ih.priority, ih.threshold, ih.pending, ih.blk, poll_plain ih.net fuel _⟩
  | clock _ mtime ih => exact ⟨ih.priority, ih.threshold, ih.pending, ih.blk, ih.net⟩
  | memory _ mem ih => exact ⟨ih.priority, ih.threshold, ih.pending, ih.blk, ih.net⟩

/-! ## Loads that fit -/

theorem setWidth_lt {w : Nat} (v : BitVec w) : (v.setWidth 64).toNat < 2 ^ w := by
  rw [BitVec.toNat_setWidth]
  exact Nat.lt_of_le_of_lt (Nat.mod_le _ _) v.isLt

theorem uartLoad_lt (u : Uart) (off : U64) : (uartLoad u off).1.toNat < 2 ^ 8 := by
  unfold uartLoad
  dsimp only
  split_ifs
  all_goals first
    | exact setWidth_lt _
    | (dsimp only; decide)

theorem clintLoad_lt (c : Clint) (off : U64) : (clintLoad c off).toNat < 2 ^ (8 * clintWidth off) := by
  have hlow : ∀ v : U64, (v &&& 0xFFFFFFFF).toNat < 2 ^ 32 := fun v => by
    rw [BitVec.toNat_and]
    exact Nat.lt_of_le_of_lt Nat.and_le_right (by decide)
  have hhigh : ∀ v : U64, (v >>> 32).toNat < 2 ^ 32 := fun v => by
    rw [BitVec.toNat_ushiftRight, Nat.shiftRight_eq_div_pow]
    have := v.isLt
    omega
  unfold clintWidth
  split
  · unfold clintLoad
    split_ifs
    · exact hlow _
    · exact hhigh _
    · exact hlow _
    · exact hhigh _
    · decide
  next hno =>
    simp only [List.contains_iff_mem, List.mem_cons, List.not_mem_nil, or_false, not_or] at hno
    unfold clintLoad
    rw [if_neg hno.1, if_neg hno.2.1, if_neg hno.2.2.1, if_neg hno.2.2.2]
    decide

/-- The pending words. -/
theorem PlainBus.pending_lt {b : Bus} (h : PlainBus b) : (b.plic.pending 0).toNat < 2 ^ 16 ∧ b.plic.pending 1 = 0 := by
  have hsource : ∀ (w : U32) (j : Nat), w.toNat < 2 → (b.plic.pending w).getLsbD j = true → w = 0 ∧ j < 16 := by
    intro w j hw hbit
    have hj : j < 32 := by
      by_contra hge
      rw [BitVec.getLsbD_of_ge _ j (by omega)] at hbit
      cases hbit
    obtain ⟨k, hk, rfl, rfl⟩ := source_at hw hj
    have hnum : k.toNat = 8 ∨ k.toNat = 9 ∨ k.toNat = 10 :=
      (h.pending k hbit).imp (congrArg BitVec.toNat) (Or.imp (congrArg BitVec.toNat) (congrArg BitVec.toNat))
    exact ⟨BitVec.eq_of_toNat_eq (by show (k / 32).toNat = 0; omega), by omega⟩
  constructor
  · apply Nat.lt_pow_two_of_testBit
    intro j hj
    by_contra hbit
    have := (hsource 0 j (by decide) (Bool.of_not_eq_false hbit)).2
    omega
  · apply BitVec.eq_of_getLsbD_eq
    intro j _
    rw [show (0 : U32).getLsbD j = false from BitVec.getLsbD_zero, Bool.eq_false_iff]
    exact fun hbit => absurd (hsource 1 j (by decide) hbit).1 (by decide)

/-- The word that an address of a window is in. -/
theorem slot_toNat {off base : U64} (hlow : base ≤ off) (hhigh : off.toNat < base.toNat + 0x1000) :
    (((off - base) / 4).setWidth 32 : U32).toNat = (off.toNat - base.toNat) / 4 := by
  have hle : base.toNat ≤ off.toNat := hlow
  have h4 : (4 : U64).toNat = 4 := rfl
  rw [BitVec.toNat_setWidth, BitVec.toNat_udiv, BitVec.toNat_sub_of_le hlow, h4]
  exact Nat.mod_eq_of_lt (by omega)

theorem enableWord_iff {off : U64} (hlow : 0x2000 ≤ off) (hhigh : off < 0x2100) :
    (((off - if decide (0x2080 ≤ off) then 0x2080 else 0x2000) / 4).setWidth 32 : U32) < 2 ↔ enableWord off = true := by
  have hl : 0x2000 ≤ off.toNat := hlow
  have hh : off.toNat < 0x2100 := hhigh
  have hlt : ∀ w : U32, w < 2 ↔ w.toNat < 2 := fun w => Iff.rfl
  have hword : enableWord off = true ↔ off.toNat < 0x2008 ∨ 0x2080 ≤ off.toNat ∧ off.toNat < 0x2088 := by
    unfold enableWord
    simp only [Bool.or_eq_true, Bool.and_eq_true, decide_eq_true_eq]
    show (0x2000 ≤ off.toNat ∧ off.toNat < 0x2008) ∨ (0x2080 ≤ off.toNat ∧ off.toNat < 0x2088) ↔ _
    omega
  rw [hlt, hword]
  split
  next hctx =>
    rw [decide_eq_true_eq] at hctx
    have hc : 0x2080 ≤ off.toNat := hctx
    rw [slot_toNat hctx (by show off.toNat < 0x2080 + 0x1000; omega), show (0x2080 : U64).toNat = 0x2080 from rfl]
    omega
  next hctx =>
    rw [decide_eq_true_eq] at hctx
    have hc : ¬ 0x2080 ≤ off.toNat := hctx
    rw [slot_toNat hlow (by show off.toNat < 0x2000 + 0x1000; omega), show (0x2000 : U64).toNat = 0x2000 from rfl]
    omega

theorem plicLoad_lt {b : Bus} (h : PlainBus b) (off : U64) : (plicLoad b.plic off).1.toNat < 2 ^ (8 * plicLoadWidth off) := by
  have hone : 8 * 1 ≤ 8 * plicLoadWidth off := by
    unfold plicLoadWidth
    split_ifs <;> decide
  have hbyte : ∀ {v : U64}, v.toNat < 2 ^ 8 → v.toNat < 2 ^ (8 * plicLoadWidth off) := fun hv =>
    Nat.lt_of_lt_of_le hv (Nat.pow_le_pow_right (by decide) hone)
  have hzero : (0 : U64).toNat < 2 ^ (8 * plicLoadWidth off) := hbyte (by decide)
  have hsmall : ∀ {v : U32}, v.toNat < 64 → (v.setWidth 64).toNat < 2 ^ (8 * plicLoadWidth off) := fun {v} hv =>
    hbyte (by rw [BitVec.toNat_setWidth]; omega)
  unfold plicLoad
  split
  · dsimp only
    split
    · exact hsmall (Nat.lt_trans (h.priority _) (by decide))
    · exact hzero
  next hprio =>
  have hoff : 0x1000 ≤ off.toNat := Nat.not_lt.1 hprio
  split
  next hpend =>
    have hlt : off.toNat < 0x1080 := hpend
    have hslot := @slot_toNat off 0x1000 hoff (by show off.toNat < 0x1000 + 0x1000; omega)
    rw [show (0x1000 : U64).toNat = 0x1000 from rfl] at hslot
    dsimp only
    split
    next hidx =>
      have hidx : (((off - 0x1000) / 4).setWidth 32 : U32).toNat < 2 := hidx
      obtain ⟨h0, h1⟩ := h.pending_lt
      by_cases hfirst : off.toNat < 0x1004
      · have hword : (((off - 0x1000) / 4).setWidth 32 : U32) = 0 := BitVec.eq_of_toNat_eq (by
          rw [hslot]
          show _ = 0
          omega)
        have hwidth : 8 * 2 ≤ 8 * plicLoadWidth off := by
          unfold plicLoadWidth
          rw [if_pos (show 0x1000 ≤ off ∧ off < 0x1004 from ⟨hoff, hfirst⟩)]
          split <;> decide
        rw [hword, BitVec.toNat_setWidth, Nat.mod_eq_of_lt (by omega)]
        exact Nat.lt_of_lt_of_le h0 (Nat.pow_le_pow_right (by decide) hwidth)
      · have hword : (((off - 0x1000) / 4).setWidth 32 : U32) = 1 := BitVec.eq_of_toNat_eq (by
          rw [hslot] at hidx ⊢
          show _ = 1
          omega)
        rw [hword, h1]
        exact hzero
    next => exact hzero
  split
  next hen =>
    have hword := enableWord_iff hen.1 hen.2
    dsimp only
    generalize (((off - if decide (0x2080 ≤ off) then 0x2080 else 0x2000) / 4).setWidth 32 : U32) = idx at hword ⊢
    split
    next hidx =>
      unfold plicLoadWidth
      rw [if_pos (hword.1 hidx)]
      exact setWidth_lt _
    next => exact hzero
  split
  · dsimp only
    generalize off - (if decide (0x201000 ≤ off) = true then (0x201000 : U64) else 0x200000) = o
    split
    · exact hsmall (Nat.lt_trans (h.threshold _) (by decide))
    split
    · rcases plicClaim_first b.plic _ 63 1 (by decide) (by decide) fun j hj => hj.pos with
        ⟨k, hk, -, hval, -⟩ | ⟨-, hsame⟩
      · rw [hval]
        exact hsmall hk.lt
      · rw [hsame]
        exact hzero
    · exact hzero
  · exact hzero

theorem ite_lt {c : Prop} [Decidable c] {v w : U64} {n : Nat} (hv : c → v.toNat < n) (hw : w.toNat < n) :
    (if c then v else w).toNat < n := by
  split
  next h => exact hv h
  next => exact hw

theorem virtioRegLoad_lt {dev : VirtioDev} (h : dev.Plain) {off : U64} (hcfg : ¬ virtioMmioConfig ≤ off) (size : U64) :
    (virtioMmioLoad dev off size).toNat < 2 ^ (8 * virtioLoadWidth off) := by
  have hone : 8 * 1 ≤ 8 * virtioLoadWidth off := by
    unfold virtioLoadWidth
    split_ifs <;> decide
  have hbyte : ∀ {v : U64}, v.toNat < 2 ^ 8 → v.toNat < 2 ^ (8 * virtioLoadWidth off) := fun hv =>
    Nat.lt_of_lt_of_le hv (Nat.pow_le_pow_right (by decide) hone)
  have hword : ∀ {v : U32}, off ∈ ([0x000, 0x00C, 0x044, 0x070] : List U64) →
      (v.setWidth 64).toNat < 2 ^ (8 * virtioLoadWidth off) := fun {v} hmem => by
    rw [show virtioLoadWidth off = 4 from if_pos (List.contains_iff_mem.2 hmem)]
    exact setWidth_lt v
  have hzero : (0 : U64).toNat < 2 ^ (8 * virtioLoadWidth off) := hbyte (by decide)
  unfold virtioMmioLoad
  rw [if_neg hcfg]
  refine ite_lt (fun h0 => hword (v := 0x74726976) (by rw [h0]; decide)) ?_
  refine ite_lt (fun _ => hbyte (by decide)) ?_
  refine ite_lt (fun _ => hbyte (by rw [BitVec.toNat_setWidth]; have := h.device_id; omega)) ?_
  refine ite_lt (fun hC => hword (v := 0x554D4551) (by rw [hC]; decide)) ?_
  refine ite_lt (fun _ => ?_) ?_
  · refine ite_lt (fun _ => ?_) (ite_lt (fun _ => ?_) hzero)
    · rcases h.dev_features with hf | hf <;> rw [hf] <;> exact hbyte (by decide)
    · rcases h.dev_features with hf | hf <;> rw [hf] <;> exact hbyte (by decide)
  refine ite_lt (fun h34 => ?_) ?_
  · rw [h34, show virtioLoadWidth 0x034 = 2 from rfl]
    decide
  refine ite_lt (fun h44 => ite_lt (fun _ => hword (by rw [h44]; decide)) hzero) ?_
  refine ite_lt (fun _ => hbyte (by rw [BitVec.toNat_setWidth]; have := h.int_status; omega)) ?_
  refine ite_lt (fun h70 => hword (by rw [h70]; decide)) ?_
  refine ite_lt (fun _ => ?_) hzero
  rw [h.config_gen]
  exact hzero

theorem virtioMmioLoad_lt {dev : VirtioDev} (h : dev.Plain) (off size : U64) :
    (virtioMmioLoad dev off size).toNat < 2 ^ (8 * size.toNat) ∨
      (virtioMmioLoad dev off size).toNat < 2 ^ (8 * virtioLoadWidth off) := by
  by_cases hcfg : virtioMmioConfig ≤ off
  · unfold virtioMmioLoad
    rw [if_pos hcfg]
    refine .inl (ite_lt (fun _ => Mem.read_lt _ _ _) ?_)
    exact Nat.two_pow_pos _
  · exact .inr (virtioRegLoad_lt h hcfg size)

theorem one_le_loadWidth (addr : U64) : 1 ≤ loadWidth addr := by
  unfold loadWidth busWidth clintWidth plicLoadWidth virtioLoadWidth
  split_ifs <;> decide

/-- **A load answers no more than the bytes it reads**, or those of its register. -/
theorem busLoad_lt {b : Bus} (h : PlainBus b) (ramSize addr : U64) {size : Nat} (hsize : size < 2 ^ 64) :
    (busLoad ramSize b addr size).1.toNat < 2 ^ (8 * size) ∨
      (busLoad ramSize b addr size).1.toNat < 2 ^ (8 * loadWidth addr) := by
  have hbyte : ∀ {v : U64}, v.toNat < 2 ^ 8 → v.toNat < 2 ^ (8 * loadWidth addr) := fun hv =>
    fits_mono (w := 1) hv (one_le_loadWidth addr)
  have hreg : ∀ {dev : VirtioDev} {off : U64}, dev.Plain → loadWidth addr = virtioLoadWidth off →
      (virtioMmioLoad dev off (BitVec.ofNat 64 size)).toNat < 2 ^ (8 * size) ∨
        (virtioMmioLoad dev off (BitVec.ofNat 64 size)).toNat < 2 ^ (8 * loadWidth addr) := by
    intro dev off hdev hwidth
    have hload := virtioMmioLoad_lt hdev off (BitVec.ofNat 64 size)
    rw [BitVec.toNat_ofNat, Nat.mod_eq_of_lt hsize] at hload
    rw [hwidth]
    exact hload
  unfold busLoad
  split
  · exact .inl (Mem.read_lt _ _ _)
  unfold mmioLoad
  split
  · exact .inr (hbyte (uartLoad_lt _ _))
  split
  next hclint =>
    refine .inr ?_
    rw [show loadWidth addr = clintWidth (addr - clintBase) from if_pos hclint]
    exact clintLoad_lt _ _
  next hclint =>
  split
  next hplic =>
    refine .inr ?_
    rw [show loadWidth addr = plicLoadWidth (addr - plicBase) from (if_neg hclint).trans (if_pos hplic)]
    exact plicLoad_lt h _
  next hplic =>
  split
  next hblk => exact hreg h.blk ((if_neg hclint).trans ((if_neg hplic).trans (if_pos hblk.1)))
  split
  next hnoblk hnet =>
    refine hreg h.net ((if_neg hclint).trans ((if_neg hplic).trans ((if_neg ?_).trans (if_pos hnet.1))))
    exact fun hblk => hnoblk ⟨hblk, hnet.2⟩
  · exact .inr (hbyte (v := 0) (by decide))

/-! ## Stores that fit -/

section Stores

variable {size : Nat} {v v' : U64}

theorem uartStore_low (h : SameLow size v v') (hsize : 1 ≤ size) (u : Uart) (off : U64) :
    uartStore u off v = uartStore u off v' := by
  have hbyte : v.setWidth 8 = v'.setWidth 8 := h.setWidth (by omega)
  have hbit : v.getLsbD 1 = v'.getLsbD 1 := h.getLsbD (by omega)
  unfold uartStore
  rw [hbyte, hbit]

theorem clintStore_low (h : SameLow size v v') {off : U64} (hsize : clintWidth off ≤ size) (h8 : size < 8) (c : Clint) :
    clintStore c off v size = clintStore c off v' size := by
  by_cases hoff : off ∈ [clintMtimecmp, clintMtimecmp + 4, clintMtime, clintMtime + 4]
  · rw [show clintWidth off = 4 from if_pos (List.contains_iff_mem.2 hoff)] at hsize
    have hmask := h.lowMask hsize
    unfold clintStore setLow setHigh
    rw [hmask]
    simp only [if_neg (show ¬ size = 8 by omega)]
  · simp only [List.mem_cons, List.not_mem_nil, or_false, not_or] at hoff
    unfold clintStore
    rw [if_neg hoff.1, if_neg hoff.2.1, if_neg hoff.2.2.1, if_neg hoff.2.2.2, if_neg hoff.1, if_neg hoff.2.1,
      if_neg hoff.2.2.1, if_neg hoff.2.2.2]

theorem plicStore_low (h : SameLow size v v') {off : U64} (hsize : plicStoreWidth off ≤ size) (hone : 1 ≤ size) (p : Plic) :
    plicStore p off v = plicStore p off v' := by
  have hseven : v.setWidth 32 &&& 7 = (v'.setWidth 32 &&& 7 : U32) := by
    apply BitVec.eq_of_getLsbD_eq
    intro j hj
    have hbit : (7 : U32).getLsbD j = decide (j < 3) := by
      have : ∀ i < 32, (7 : U32).getLsbD i = decide (i < 3) := by decide
      exact this j hj
    rw [BitVec.getLsbD_and, BitVec.getLsbD_and, BitVec.getLsbD_setWidth, BitVec.getLsbD_setWidth, hbit]
    by_cases h3 : j < 3
    · rw [h.getLsbD (by omega)]
    · rw [decide_eq_false h3, Bool.and_false, Bool.and_false]
  unfold plicStore
  rw [hseven]
  split
  · rfl
  split
  next hen =>
    have hword := enableWord_iff hen.1 hen.2
    dsimp only
    generalize (((off - if decide (0x2080 ≤ off) then 0x2080 else 0x2000) / 4).setWidth 32 : U32) = idx at hword ⊢
    split
    next hidx =>
      rw [show plicStoreWidth off = 4 from if_pos (hword.1 hidx)] at hsize
      rw [h.setWidth (by omega)]
    next => rfl
  · rfl

theorem virtioRegStore_low (h : SameLow size v v') {off : U64} (hsize : virtioStoreWidth off ≤ size) (hone : 1 ≤ size)
    (h8 : size < 8) {dev : VirtioDev} (hdev : dev.Plain) :
    off ≠ 0x050 ∧ virtioRegStore dev off v = virtioRegStore dev off v' := by
  have hcompare : off ∉ ([0x050, 0x070] : List U64) := by
    intro hmem
    rw [show virtioStoreWidth off = 8 from if_pos (List.contains_iff_mem.2 hmem)] at hsize
    omega
  simp only [List.mem_cons, List.not_mem_nil, or_false, not_or] at hcompare
  refine ⟨hcompare.1, ?_⟩
  have hack : dev.int_status &&& ~~~(v.setWidth 32) = dev.int_status &&& ~~~(v'.setWidth 32) := by
    apply BitVec.eq_of_getLsbD_eq
    intro j hj
    rw [BitVec.getLsbD_and, BitVec.getLsbD_and, BitVec.getLsbD_not, BitVec.getLsbD_not, BitVec.getLsbD_setWidth,
      BitVec.getLsbD_setWidth]
    by_cases hj0 : j = 0
    · rw [hj0, h.getLsbD (show 0 < 8 * size by omega)]
    · have hzero : dev.int_status.getLsbD j = false :=
        Nat.testBit_lt_two_pow (Nat.lt_of_le_of_lt hdev.int_status (Nat.one_lt_two_pow hj0))
      rw [hzero, Bool.false_and, Bool.false_and]
  unfold virtioRegStore
  rw [hack]
  simp only [if_neg hcompare.2]
  by_cases hword : off ∈ ([0x014, 0x020, 0x024, 0x030, 0x038, 0x044, 0x080, 0x084, 0x090, 0x094, 0x0A0, 0x0A4] : List U64)
  · have hwidth : virtioStoreWidth off = 4 := by
      unfold virtioStoreWidth
      rw [if_neg (by simpa using hcompare), if_pos (List.contains_iff_mem.2 hword)]
    have h32 : v.setWidth 32 = (v'.setWidth 32 : U32) := h.setWidth (by omega)
    have hmask := h.lowMask (by omega)
    unfold setLow setHigh
    rw [h32, hmask]
  · simp only [List.mem_cons, List.not_mem_nil, or_false, not_or] at hword
    obtain ⟨h1, h2, h3, h4, h5, h6, h7, h9, h10, h11, h12, h13⟩ := hword
    simp only [if_neg h1, if_neg h2, if_neg h3, if_neg h4, if_neg h5, if_neg h6, if_neg h7, if_neg h9, if_neg h10,
      if_neg h11, if_neg h12, if_neg h13]

theorem one_le_storeWidth (addr : U64) : 1 ≤ storeWidth addr := by
  unfold storeWidth busWidth clintWidth plicStoreWidth virtioStoreWidth
  split_ifs <;> decide

variable [NetDevice]

theorem virtioMmioStore_low (h : SameLow size v v') {off : U64} (hsize : virtioStoreWidth off ≤ size) (hone : 1 ≤ size)
    (h8 : size < 8) {dev : VirtioDev} (hdev : dev.Plain) (ramSize : U64) (mem : BlkMem) :
    virtioMmioStore dev ramSize off v mem = virtioMmioStore dev ramSize off v' mem := by
  obtain ⟨hnotify, hreg⟩ := virtioRegStore_low h hsize hone h8 hdev
  unfold virtioMmioStore
  rw [if_neg hnotify, if_neg hnotify, hreg]

/-- **A store looks at no more bytes than its register takes.** -/
theorem busStore_low (h : SameLow size v v') {b : Bus} (hb : PlainBus b) {addr : U64} (hsize : storeWidth addr ≤ size)
    (ramSize : U64) : busStore ramSize b addr size v = busStore ramSize b addr size v' := by
  have hone := Nat.le_trans (one_le_storeWidth addr) hsize
  by_cases h8 : 8 ≤ size
  · have heq : v = v' := BitVec.eq_of_getLsbD_eq fun j hj => h.getLsbD (by omega)
    rw [heq]
  have h8 : size < 8 := Nat.not_le.1 h8
  unfold busStore
  rw [h.write]
  split
  · rfl
  unfold mmioStore
  split
  · rw [uartStore_low h hone]
  split
  next hclint =>
    rw [show storeWidth addr = clintWidth (addr - clintBase) from if_pos hclint] at hsize
    rw [clintStore_low h hsize h8]
  next hclint =>
  split
  next hplic =>
    rw [show storeWidth addr = plicStoreWidth (addr - plicBase) from (if_neg hclint).trans (if_pos hplic)] at hsize
    rw [plicStore_low h hsize hone]
  next hplic =>
  split
  next hblk =>
    have hwidth : storeWidth addr = virtioStoreWidth (addr - virtioMmioBase) :=
      (if_neg hclint).trans ((if_neg hplic).trans (if_pos hblk.1))
    rw [virtioMmioStore_low h (hwidth ▸ hsize) hone h8 hb.blk]
  split
  next hnoblk hnet =>
    have hwidth : storeWidth addr = virtioStoreWidth (addr - (virtioMmioBase + virtioMmioSize)) :=
      (if_neg hclint).trans ((if_neg hplic).trans ((if_neg fun hblk => hnoblk ⟨hblk, hnet.2⟩).trans (if_pos hnet.1)))
    rw [virtioMmioStore_low h (hwidth ▸ hsize) hone h8 hb.net]
  · rfl

end Stores

/-! ## Registers that are wider -/

def busAddrs (clint plic virtio : List U64) : List U64 :=
  clint.map (clintBase + ·) ++ plic.map (plicBase + ·) ++ virtio.map (virtioMmioBase + ·) ++
    virtio.map (virtioMmioBase + virtioMmioSize + ·)

theorem mem_busAddrs {clint plic virtio : U64 → Nat} {n : Nat} (hn : n ≠ 1) {cs ps vs : List U64}
    (hc : ∀ off, clint off = n → off ∈ cs) (hp : ∀ off, plic off = n → off ∈ ps) (hv : ∀ off, virtio off = n → off ∈ vs)
    {addr : U64} (h : busWidth clint plic virtio addr = n) : addr ∈ busAddrs cs ps vs := by
  have hback : ∀ base : U64, base + (addr - base) = addr := fun base => by
    rw [BitVec.add_comm, BitVec.sub_add_cancel]
  unfold busAddrs
  simp only [List.mem_append, List.mem_map]
  unfold busWidth at h
  split at h
  · exact .inl (.inl (.inl ⟨_, hc _ h, hback _⟩))
  split at h
  · exact .inl (.inl (.inr ⟨_, hp _ h, hback _⟩))
  split at h
  · exact .inl (.inr ⟨_, hv _ h, hback _⟩)
  split at h
  · exact .inr ⟨_, hv _ h, hback _⟩
  · exact absurd h.symm hn

def clintOffs : List U64 := [clintMtimecmp, clintMtimecmp + 4, clintMtime, clintMtime + 4]
def enableOffs : List U64 := (List.range 8).flatMap fun i => [0x2000 + BitVec.ofNat 64 i, 0x2080 + BitVec.ofNat 64 i]
def pendingOffs : List U64 := [0x1000, 0x1001, 0x1002, 0x1003]
def wordOffs : List U64 := [0x014, 0x020, 0x024, 0x030, 0x038, 0x044, 0x080, 0x084, 0x090, 0x094, 0x0A0, 0x0A4]

theorem mem_clintOffs {off : U64} {n : Nat} (hn : n ≠ 1) (h : clintWidth off = n) : n = 4 ∧ off ∈ clintOffs := by
  unfold clintWidth at h
  split at h
  next hmem => exact ⟨h.symm, List.contains_iff_mem.1 hmem⟩
  next => exact absurd h.symm hn

theorem mem_enableOffs {off : U64} (h : enableWord off = true) : off ∈ enableOffs := by
  have hmem : ∀ i < 8, 0x2000 + BitVec.ofNat 64 i ∈ enableOffs ∧ 0x2080 + BitVec.ofNat 64 i ∈ enableOffs := by decide
  unfold enableWord at h
  simp only [Bool.or_eq_true, Bool.and_eq_true, decide_eq_true_eq] at h
  rcases h with ⟨hlow, hhigh⟩ | ⟨hlow, hhigh⟩
  · have hl : 0x2000 ≤ off.toNat := hlow
    have hh : off.toNat < 0x2008 := hhigh
    have heq : off = 0x2000 + BitVec.ofNat 64 (off.toNat - 0x2000) := by bv_omega
    rw [heq]
    exact (hmem _ (by omega)).1
  · have hl : 0x2080 ≤ off.toNat := hlow
    have hh : off.toNat < 0x2088 := hhigh
    have heq : off = 0x2080 + BitVec.ofNat 64 (off.toNat - 0x2080) := by bv_omega
    rw [heq]
    exact (hmem _ (by omega)).2

theorem mem_pendingOffs {off : U64} (hlow : 0x1000 ≤ off) (hhigh : off < 0x1004) : off ∈ pendingOffs := by
  have hl : 0x1000 ≤ off.toNat := hlow
  have hh : off.toNat < 0x1004 := hhigh
  have heq : off = 0x1000 + BitVec.ofNat 64 (off.toNat - 0x1000) := by bv_omega
  have hmem : ∀ i < 4, 0x1000 + BitVec.ofNat 64 i ∈ pendingOffs := by decide
  rw [heq]
  exact hmem _ (by omega)

/-- The addresses where a load answers more than a byte. -/
theorem loadWidth_cases (addr : U64) : loadWidth addr = 1 ∨
    loadWidth addr = 4 ∧ addr ∈ busAddrs clintOffs enableOffs [0x000, 0x00C, 0x044, 0x070] ∨
    loadWidth addr = 2 ∧ addr ∈ busAddrs [] pendingOffs [0x034] := by
  have hplic : ∀ off, plicLoadWidth off = 1 ∨ plicLoadWidth off = 4 ∧ off ∈ enableOffs ∨
      plicLoadWidth off = 2 ∧ off ∈ pendingOffs := by
    intro off
    unfold plicLoadWidth
    split_ifs with hen hpend
    · exact .inr (.inl ⟨rfl, mem_enableOffs hen⟩)
    · exact .inr (.inr ⟨rfl, mem_pendingOffs hpend.1 hpend.2⟩)
    · exact .inl rfl
  have hvirtio : ∀ off, virtioLoadWidth off = 1 ∨ virtioLoadWidth off = 4 ∧ off ∈ ([0x000, 0x00C, 0x044, 0x070] : List U64) ∨
      virtioLoadWidth off = 2 ∧ off ∈ ([0x034] : List U64) := by
    intro off
    unfold virtioLoadWidth
    split_ifs with hmem hmax
    · exact .inr (.inl ⟨rfl, List.contains_iff_mem.1 hmem⟩)
    · exact .inr (.inr ⟨rfl, List.mem_singleton.2 hmax⟩)
    · exact .inl rfl
  have hval : loadWidth addr = 1 ∨ loadWidth addr = 4 ∨ loadWidth addr = 2 := by
    unfold loadWidth busWidth clintWidth plicLoadWidth virtioLoadWidth
    split_ifs <;> decide
  rcases hval with h | h | h
  · exact .inl h
  · refine .inr (.inl ⟨h, mem_busAddrs (by decide) (fun off hoff => (mem_clintOffs (by decide) hoff).2)
      (fun off hoff => ?_) (fun off hoff => ?_) h⟩)
    · rcases hplic off with h | h | h
      · omega
      · exact h.2
      · omega
    · rcases hvirtio off with h | h | h
      · omega
      · exact h.2
      · omega
  · refine .inr (.inr ⟨h, mem_busAddrs (by decide) (fun off hoff => absurd (mem_clintOffs (by decide) hoff).1 (by decide))
      (fun off hoff => ?_) (fun off hoff => ?_) h⟩)
    · rcases hplic off with h | h | h
      · omega
      · omega
      · exact h.2
    · rcases hvirtio off with h | h | h
      · omega
      · omega
      · exact h.2

/-- Those where a store looks at more than a byte. -/
theorem storeWidth_cases (addr : U64) : storeWidth addr = 1 ∨
    storeWidth addr = 4 ∧ addr ∈ busAddrs clintOffs enableOffs wordOffs ∨
    storeWidth addr = 8 ∧ addr ∈ busAddrs [] [] [0x050, 0x070] := by
  have hplic : ∀ off, plicStoreWidth off = 1 ∨ plicStoreWidth off = 4 ∧ off ∈ enableOffs := by
    intro off
    unfold plicStoreWidth
    split
    next hen => exact .inr ⟨rfl, mem_enableOffs hen⟩
    next => exact .inl rfl
  have hvirtio : ∀ off, virtioStoreWidth off = 1 ∨ virtioStoreWidth off = 4 ∧ off ∈ wordOffs ∨
      virtioStoreWidth off = 8 ∧ off ∈ ([0x050, 0x070] : List U64) := by
    intro off
    unfold virtioStoreWidth
    split
    next hmem => exact .inr (.inr ⟨rfl, List.contains_iff_mem.1 hmem⟩)
    next =>
      split
      next hmem => exact .inr (.inl ⟨rfl, List.contains_iff_mem.1 hmem⟩)
      next => exact .inl rfl
  have hval : storeWidth addr = 1 ∨ storeWidth addr = 4 ∨ storeWidth addr = 8 := by
    unfold storeWidth busWidth clintWidth plicStoreWidth virtioStoreWidth
    split_ifs <;> decide
  rcases hval with h | h | h
  · exact .inl h
  · refine .inr (.inl ⟨h, mem_busAddrs (by decide) (fun off hoff => (mem_clintOffs (by decide) hoff).2)
      (fun off hoff => ?_) (fun off hoff => ?_) h⟩)
    · rcases hplic off with h | h
      · omega
      · exact h.2
    · rcases hvirtio off with h | h | h
      · omega
      · exact h.2
      · omega
  · refine .inr (.inr ⟨h, mem_busAddrs (by decide) (fun off hoff => absurd (mem_clintOffs (by decide) hoff).1 (by decide))
      (fun off hoff => ?_) (fun off hoff => ?_) h⟩)
    · rcases hplic off with h | h <;> omega
    · rcases hvirtio off with h | h | h
      · omega
      · omega
      · exact h.2

section Wide

local instance wideHost : NetHost := NetHost.quiet 0
local instance wideNet : NetDevice := NetHost.device 4

/-- A machine with a disk, at boot, and an entry in a ring at the start of its RAM. -/
def wideBus : Bus := (bootDevices true 0x1000 1 (rv64Init (Mem.write (fun _ => 0) 2 2 1) vmRamSize)).bus

theorem wideBus_reached : BusReached wideBus := .devices (.reset _) true 0x1000 1

theorem wideLoads : ([1, 2] : List Nat).all (fun size =>
    (busAddrs clintOffs enableOffs [0x000, 0x00C, 0x044, 0x070]).all fun addr =>
      decide (2 ^ 16 ≤ (busLoad vmRamSize (busStore vmRamSize wideBus addr 4 0xFFFFFFFF) addr size).1.toNat)) = true := by
  decide +kernel

theorem halfLoads : (busAddrs [] pendingOffs [0x034]).all (fun addr =>
    decide (2 ^ 8 ≤ (busLoad vmRamSize (uartRx wideBus 0x61) addr 1).1.toNat)) = true := by
  decide +kernel

def devFields (dev : VirtioDev) : List Nat :=
  [dev.dev_features_sel.toNat, dev.drv_features.toNat, dev.drv_features_sel.toNat, dev.queue_sel.toNat, dev.status.toNat,
    (dev.queues 0).num.toNat, (dev.queues 0).ready.toNat, (dev.queues 0).desc_addr.toNat, (dev.queues 0).avail_addr.toNat,
    (dev.queues 0).used_addr.toNat, (dev.queues 0).last_avail.toNat, (dev.queues 1).last_avail.toNat, dev.slirp.toNat,
    dev.mark_dirty.toNat]

/-- Where two machines are seen to differ. -/
def busFields (b : Bus) : List Nat :=
  [b.clint.mtimecmp.toNat, b.clint.mtime.toNat, (b.plic.enable false 0).toNat, (b.plic.enable false 1).toNat,
    (b.plic.enable true 0).toNat, (b.plic.enable true 1).toNat] ++ devFields b.virtio_blk ++ devFields b.virtio_net

theorem wideStores : ([1, 2] : List Nat).all (fun size => (busAddrs clintOffs enableOffs wordOffs).all fun addr =>
    busFields (busStore vmRamSize wideBus addr size 0) != busFields (busStore vmRamSize wideBus addr size 0x10000)) =
      true := by
  decide +kernel

/-- Queue `sel` made ready. -/
def ringStores (base sel : U64) : List (U64 × U64) :=
  [(base + 0x030, sel), (base + 0x038, 1), (base + 0x080, 0x80001000), (base + 0x090, 0x80000000), (base + 0x044, 1)]

def storeWords (b : Bus) (l : List (U64 × U64)) : Bus := l.foldl (fun b s => busStore vmRamSize b s.1 4 s.2) b

theorem storeWords_reached : ∀ (l : List (U64 × U64)) {b : Bus}, BusReached b → BusReached (storeWords b l)
  | [], _, h => h
  | s :: l, _, h => storeWords_reached l (h.store wideHost 4 s.1 4 s.2)

/-- The value of a notify, or of a reset. -/
def wholeVal (addr : U64) : U64 := if addr = virtioMmioBase + virtioMmioSize + 0x050 then 1 else 0

def wholeBus (addr : U64) : Bus :=
  if addr = virtioMmioBase + 0x050 then storeWords wideBus (ringStores virtioMmioBase 0)
  else if addr = virtioMmioBase + virtioMmioSize + 0x050 then
    storeWords wideBus (ringStores (virtioMmioBase + virtioMmioSize) 1)
  else wideBus

theorem wholeBus_reached (addr : U64) : BusReached (wholeBus addr) := by
  unfold wholeBus
  split
  · exact storeWords_reached _ wideBus_reached
  split
  · exact storeWords_reached _ wideBus_reached
  · exact wideBus_reached

theorem wholeStores : ([1, 2, 4] : List Nat).all (fun size => (busAddrs [] [] [0x050, 0x070]).all fun addr =>
    busFields (busStore vmRamSize (wholeBus addr) addr size (wholeVal addr)) !=
      busFields (busStore vmRamSize (wholeBus addr) addr size (0x100000000 + wholeVal addr))) = true := by
  decide +kernel

theorem loadFits_iff (addr : U64) {size : Nat} (hsize : size ∈ [1, 2, 4, 8]) :
    LoadFits addr size ↔ loadWidth addr ≤ size := by
  have hsmall : size < 2 ^ 64 ∧ 1 ≤ size := by
    simp only [List.mem_cons, List.not_mem_nil, or_false] at hsize
    omega
  constructor
  · intro h
    by_contra hwide
    rcases loadWidth_cases addr with hw | ⟨hw, hmem⟩ | ⟨hw, hmem⟩
    · omega
    · have h12 : size ∈ ([1, 2] : List Nat) := by
        simp only [List.mem_cons, List.not_mem_nil, or_false] at hsize ⊢
        omega
      have hlarge := List.all_eq_true.1 (List.all_eq_true.1 wideLoads size h12) addr hmem
      rw [decide_eq_true_eq] at hlarge
      have hlt := h _ (wideBus_reached.store wideHost 4 addr 4 0xFFFFFFFF)
      have hpow : 2 ^ (8 * size) ≤ 2 ^ 16 := Nat.pow_le_pow_right (by decide) (by
        simp only [List.mem_cons, List.not_mem_nil, or_false] at h12
        omega)
      omega
    · obtain rfl : size = 1 := by omega
      have hlarge := List.all_eq_true.1 halfLoads addr hmem
      rw [decide_eq_true_eq] at hlarge
      have hlt := h _ (wideBus_reached.input 0x61)
      omega
  · intro hw b hb
    rcases busLoad_lt hb.plain vmRamSize addr hsmall.1 with h | h
    · exact h
    · exact fits_mono h hw

theorem storeFits_iff (addr : U64) {size : Nat} (hsize : size ∈ [1, 2, 4, 8]) :
    StoreFits addr size ↔ storeWidth addr ≤ size := by
  constructor
  · intro h
    by_contra hwide
    simp only [List.mem_cons, List.not_mem_nil, or_false] at hsize
    rcases storeWidth_cases addr with hw | ⟨hw, hmem⟩ | ⟨hw, hmem⟩
    · omega
    · have h12 : size = 1 ∨ size = 2 := by omega
      have hdiff := List.all_eq_true.1 (List.all_eq_true.1 wideStores size (by simpa using h12)) addr hmem
      have hlow : SameLow size 0 0x10000 := by rcases h12 with rfl | rfl <;> rfl
      rw [h _ wideBus_reached wideHost 4 0 0x10000 hlow, bne_self_eq_false] at hdiff
      cases hdiff
    · have h124 : size = 1 ∨ size = 2 ∨ size = 4 := by omega
      have hdiff := List.all_eq_true.1 (List.all_eq_true.1 wholeStores size (by simpa using h124)) addr hmem
      have hlow : SameLow size (wholeVal addr) (0x100000000 + wholeVal addr) := by
        unfold wholeVal
        split <;> rcases h124 with rfl | rfl | rfl <;> rfl
      rw [h _ (wholeBus_reached addr) wideHost 4 _ _ hlow, bne_self_eq_false] at hdiff
      cases hdiff
  · intro hw b hb host fuel v v' hlow
    exact @busStore_low _ _ _ (@NetHost.device host fuel) hlow b hb.plain addr hw vmRamSize

end Wide

/-! ## Loads and stores of the CPU -/

/-- The machine is wired to the bus of the VM. -/
structure Wired (c : Cpu) : Prop where
  ram_size : c.ram_size = vmRamSize
  bus : BusReached c.bus

def KeepsWired (c c' : Cpu) : Prop := Wired c → Wired c'

instance : IsPreorder Cpu KeepsWired where
  refl _ := id
  trans _ _ _ h h' := h' ∘ h

theorem loadBytes_lt [NetDevice] {va : U64} {access : AccessType} : ∀ {n i : Nat} {r v : U64} {c c' : Cpu},
    r.toNat < 2 ^ (8 * i) → loadBytes va access n i r c = .ok v c' → v.toNat < 2 ^ (8 * (i + n))
  | 0, _, _, _, _, _, hr, h => by
    cases h
    exact hr
  | n + 1, i, r, v, c, c', hr, h => by
    obtain ⟨pa, d, -, h⟩ := bind_eq_ok.1 h
    obtain ⟨b, e, -, h⟩ := bind_eq_ok.1 h
    have hbyte : ((b &&& 0xFF) <<< (i * 8)).toNat < 2 ^ (8 * (i + 1)) := by
      have hb : (b &&& 0xFF).toNat < 2 ^ 8 := by
        rw [BitVec.toNat_and]
        exact Nat.lt_of_le_of_lt Nat.and_le_right (by decide)
      rw [BitVec.toNat_shiftLeft, Nat.shiftLeft_eq]
      refine Nat.lt_of_le_of_lt (Nat.mod_le _ _) ?_
      rw [show 8 * (i + 1) = 8 + i * 8 by omega, Nat.pow_add]
      exact Nat.mul_lt_mul_of_pos_right hb (Nat.two_pow_pos _)
    have hlow : r.toNat < 2 ^ (8 * (i + 1)) := fits_mono hr (Nat.le_succ i)
    have hnext : (r ||| (b &&& 0xFF) <<< (i * 8)).toNat < 2 ^ (8 * (i + 1)) := by
      rw [BitVec.toNat_or]
      exact Nat.or_lt_two_pow hlow hbyte
    rw [show i + (n + 1) = i + 1 + n by omega]
    exact loadBytes_lt hnext h

theorem storeBytes_low [NetDevice] {size : Nat} {v v' : U64} (h : SameLow size v v') (va : U64) : ∀ {n i : Nat},
    i + n ≤ size → storeBytes va v n i = storeBytes va v' n i
  | 0, _, _ => rfl
  | n + 1, i, hle => by
    have hbyte : (v >>> (i * 8)) &&& 0xFF = (v' >>> (i * 8)) &&& 0xFF := by
      apply BitVec.eq_of_getLsbD_eq
      intro j hj
      have hmask : (0xFF : U64).getLsbD j = decide (j < 8) := mask_getLsbD (n := 8) (by decide) j
      rw [BitVec.getLsbD_and, BitVec.getLsbD_and, BitVec.getLsbD_ushiftRight, BitVec.getLsbD_ushiftRight, hmask]
      by_cases h8 : j < 8
      · rw [h.getLsbD (by omega)]
      · rw [decide_eq_false h8, Bool.and_false, Bool.and_false]
    unfold storeBytes
    rw [hbyte, storeBytes_low h va (by omega)]

section Access

variable [NetHost] (fuel : Nat)

theorem translate_wired (va : U64) (access : AccessType) :
    Leads KeepsWired (@rv64Translate (NetHost.device fuel) va access) := by
  let _ := NetHost.device fuel
  have hbus : BusRules KeepsWired :=
    { load := fun c pa size h => ⟨h.ram_size, by
        show BusReached (busLoad c.ram_size c.bus pa size).2
        rw [h.ram_size]
        exact h.bus.load pa size⟩
      store := fun c pa size val h => ⟨h.ram_size, by
        show BusReached (busStore c.ram_size c.bus pa size val)
        rw [h.ram_size]
        exact h.bus.store _ fuel pa size val⟩
      write := fun _ _ _ _ h => ⟨h.ram_size, h.bus.memory _⟩ }
  exact leads_rv64Translate hbus (fun _ _ _ _ _ _ _ _ h => ⟨h.ram_size, h.bus⟩) va access

/-- **A load whose translation leads to a register that fits its size gets no bits above it.** -/
theorem cpuLoad_lt {c c' : Cpu} (hc : Wired c) {va v : U64} {size : Nat} {access : AccessType} (h64 : size < 2 ^ 64)
    (hfit : ∀ pa, @translated (NetHost.device fuel) c va access = some pa → loadWidth pa ≤ size)
    (h : @rv64CpuLoad (NetHost.device fuel) va size access c = .ok v c') : v.toNat < 2 ^ (8 * size) := by
  let _ := NetHost.device fuel
  cases hfast : loadFast c va size access with
  | some p =>
    rw [rv64CpuLoad_hit hfast] at h
    cases h
    exact Mem.read_lt _ _ _
  | none =>
    rw [rv64CpuLoad_miss hfast] at h
    split at h
    · have hlt := loadBytes_lt (by decide : (0 : U64).toNat < 2 ^ (8 * 0)) h
      rwa [Nat.zero_add] at hlt
    · obtain ⟨pa, d, htr, hload⟩ := bind_eq_ok.1 h
      have hpa : translated c va access = some pa := by
        unfold translated
        rw [htr]
      have hd := translate_wired fuel va access c
      rw [htr] at hd
      cases hload
      rcases busLoad_lt (hd hc).bus.plain d.ram_size pa h64 with hlt | hlt
      · exact hlt
      · exact fits_mono hlt (hfit pa hpa)

/-- **A store whose translation leads to a register that fits its size is the same whatever is above it.** -/
theorem storeAt_low {c : Cpu} (hc : Wired c) {va v v' : U64} {size : Nat} (hlow : SameLow size v v')
    (hfit : ∀ pa, @translated (NetHost.device fuel) c va .write = some pa → storeWidth pa ≤ size) :
    @storeAt (NetHost.device fuel) va size v c = @storeAt (NetHost.device fuel) va size v' c := by
  let _ := NetHost.device fuel
  cases hfast : storeFast c va size with
  | some p =>
    rw [storeAt_hit hfast, storeAt_hit hfast]
    unfold Cpu.writeRam
    rw [hlow.write]
  | none =>
    rw [storeAt_miss hfast, storeAt_miss hfast]
    rw [storeBytes_low hlow va (show 0 + size ≤ size by omega)]
    split
    · rfl
    · have htrans := translate_wired fuel va .write c
      cases htr : rv64Translate va .write c with
      | error exc d => rw [bind_of_error htr, bind_of_error htr]
      | ok pa d =>
        have hpa : translated c va .write = some pa := by
          unfold translated
          rw [htr]
        rw [htr] at htrans
        have hd : Wired d := htrans hc
        rw [bind_of_ok htr, bind_of_ok htr]
        show EStateM.Result.ok () { d with bus := busStore d.ram_size d.bus pa size v } =
          EStateM.Result.ok () { d with bus := busStore d.ram_size d.bus pa size v' }
        rw [busStore_low hlow hd.bus.plain (hfit pa hpa)]

/-- LBU, LHU and LWU write the value as it was loaded. -/
theorem execLoad_lt {c c' : Cpu} (hc : Wired c) {insn : U32} {nextPc np : U64} {size : Nat} (h64 : size < 2 ^ 64)
    (hkind : loadKind (funct3 insn) = some (size, id))
    (hfit : ∀ pa, @translated (NetHost.device fuel) c (c.x (rs1 insn) + immI insn) .read = some pa → loadWidth pa ≤ size)
    (h : @execLoad (NetHost.device fuel) insn nextPc c = .ok np c') : (c'.x (rd insn)).toNat < 2 ^ (8 * size) := by
  let _ := NetHost.device fuel
  unfold execLoad at h
  rw [get_bind_apply, hkind] at h
  obtain ⟨v, d, hload, hwrite⟩ := bind_eq_ok.1 h
  have hv := cpuLoad_lt fuel hc h64 hfit (orTrap_eq_ok.1 hload)
  cases hwrite
  show (setAt (setAt d.x (rd insn) v) 0 0 (rd insn)).toNat < _
  unfold setAt
  split
  · exact Nat.two_pow_pos _
  · rw [if_pos rfl]
    exact hv

end Access

/-- **An access keeps to its size exactly where its register takes no more bytes.**  Where the translation leads to such a
register, an unsigned load puts no bits above its width into `rd`, and a store is blind to the bits above its own. -/
theorem accessWidth_iff {size : Nat} (hsize : size ∈ [1, 2, 4, 8]) :
    (∀ addr, (LoadFits addr size ∧ StoreFits addr size) ↔ (loadWidth addr ≤ size ∧ storeWidth addr ≤ size)) ∧
    ∀ (host : NetHost) (fuel : Nat) (c : Cpu), Wired c →
      (∀ (insn : U32) (nextPc np : U64) (c' : Cpu), loadKind (funct3 insn) = some (size, id) →
        (∀ pa, @translated (@NetHost.device host fuel) c (c.x (rs1 insn) + immI insn) .read = some pa → loadWidth pa ≤ size) →
        @execLoad (@NetHost.device host fuel) insn nextPc c = .ok np c' → (c'.x (rd insn)).toNat < 2 ^ (8 * size)) ∧
      ∀ va v v' : U64, SameLow size v v' →
        (∀ pa, @translated (@NetHost.device host fuel) c va .write = some pa → storeWidth pa ≤ size) →
        @storeAt (@NetHost.device host fuel) va size v c = @storeAt (@NetHost.device host fuel) va size v' c := by
  have h64 : size < 2 ^ 64 := by
    simp only [List.mem_cons, List.not_mem_nil, or_false] at hsize
    omega
  refine ⟨fun addr => and_congr (loadFits_iff addr hsize) (storeFits_iff addr hsize), fun host fuel c hc => ⟨?_, ?_⟩⟩
  · exact fun insn nextPc np c' hkind hfit h => @execLoad_lt host fuel c c' hc insn nextPc np size h64 hkind hfit h
  · exact fun va v v' hlow hfit => @storeAt_low host fuel c hc va v v' size hlow hfit

/-- A word in RAM. -/
theorem accessWidth_word : LoadFits ramBase 4 ∧ StoreFits ramBase 4 :=
  ((accessWidth_iff (by decide : 4 ∈ [1, 2, 4, 8])).1 ramBase).2 (by decide)

/-- The magic register answers 31 bits to a load of one byte. -/
theorem not_accessWidth_magic : ¬ ∀ addr, ∀ size ∈ [1, 2, 4, 8], LoadFits addr size ∧ StoreFits addr size := by
  intro h
  have hlt := (h virtioMmioBase 1 (by decide)).1 _ (.devices (.reset fun _ => 0) true 0x1000 1)
  have hval : (busLoad vmRamSize (bootDevices true 0x1000 1 (rv64Init (fun _ => 0) vmRamSize)).bus virtioMmioBase 1).1 =
      0x74726976 := by decide +kernel
  rw [hval] at hlt
  exact absurd hlt (by decide)

end PgLinux
