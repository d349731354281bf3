import PgLinux.DiskBounds
import PgLinux.Blocks
/-!
# DirtyBlocks — the dirty bitmap and the writes it stands for

A run is the block device under the guest's register accesses, with guest stores to RAM and flushes between them.
Two ghosts stand beside it: the disk as last flushed, block by block, and how long the log was then.
-/
namespace PgLinux

structure DiskRun where
  mem : BlkMem
  dev : VirtioDev
  vm_blocks : VmBlocks
  flushed : Mem
  flushed_at : U64 → Nat

inductive DiskOp where
  | load (offset size : U64)
  | store (offset val : U64)
  | guestStores (ram : Mem)
  | flush

/-- After BOOT: a cleared bitmap, a fresh device and the callback installed. -/
def DiskRun.boot (ram disk : Mem) (diskSize : U64) (rows : VmBlocks) : DiskRun where
  mem := ⟨ram, disk, some fun _ => false, [], ⟨0, 0⟩⟩
  dev := { virtioBlkInit 8 diskSize with mark_dirty := true }
  vm_blocks := rows
  flushed := disk
  flushed_at := fun _ => 0

/-- A block was flushed when its bit went down. -/
def wasFlushed (dirty dirty' : Option (U64 → Bool)) (k : U64) : Bool :=
  dirty.any (fun bits => bits k) && dirty'.any (fun bits => !bits k)

variable (ramSize : U64)

/-! ## What the bitmap is for -/

/-- A completed write put byte `b` on the disk after the last flush of its block. -/
def WrittenSince (diskSize : U64) (flushedAt : U64 → Nat) (log : List Segment) (b : U64) : Prop :=
  ∃ j g, flushedAt (b / diskBlockSize) ≤ j ∧ log[j]? = some g ∧ g.type = virtioBlkTOut ∧
    g.passes diskSize ramSize = true ∧ (b - g.diskOffset).toNat < g.len.toNat

/-- The bitmap is exact: the set bits are the blocks with bytes written since their flush, and a byte that differs from
the flushed disk is in one of them. -/
structure DirtyExact (s : DiskRun) : Prop where
  written : ∀ b, WrittenSince ramSize s.dev.disk_size s.flushed_at s.mem.log b →
    s.mem.vm_disk_dirty.any (fun bits => bits (b / diskBlockSize)) = true
  changed : ∀ b, s.mem.disk b ≠ s.flushed b → s.mem.vm_disk_dirty.any (fun bits => bits (b / diskBlockSize)) = true
  touched : ∀ k, s.mem.vm_disk_dirty.any (fun bits => bits k) = true →
    ∃ b, b / diskBlockSize = k ∧ WrittenSince ramSize s.dev.disk_size s.flushed_at s.mem.log b

/-- A write that the device completes is reported, and its end rounded up to a block does not wrap. -/
def SegmentTracked (dev : VirtioDev) (g : Segment) : Prop :=
  g.type = virtioBlkTOut → g.passes dev.disk_size ramSize = true → 0 < g.len.toNat →
    dev.mark_dirty = true ∧ g.diskOffset.toNat + g.len.toNat + 4095 < 2 ^ 64

instance (dev : VirtioDev) (g : Segment) : Decidable (SegmentTracked ramSize dev g) :=
  inferInstanceAs (Decidable (_ → _ → _ → _ ∧ _))

/-! ## The invariant -/

/-- What the block memory keeps while the device runs, between two flushes. -/
structure Tracked (diskSize : U64) (flushed : Mem) (flushedAt : U64 → Nat) (m : BlkMem) : Prop where
  bits : ∃ bits, m.vm_disk_dirty = some bits ∧
    ∀ k, bits k = true ↔ ∃ b, b / diskBlockSize = k ∧ WrittenSince ramSize diskSize flushedAt m.log b
  changed : ∀ b, m.disk b ≠ flushed b → WrittenSince ramSize diskSize flushedAt m.log b
  past : ∀ k, flushedAt k ≤ m.log.length

theorem WrittenSince.append {diskSize : U64} {flushedAt : U64 → Nat} {log : List Segment} {b : U64} (g : Segment)
    (h : WrittenSince ramSize diskSize flushedAt log b) : WrittenSince ramSize diskSize flushedAt (log ++ [g]) b := by
  obtain ⟨j, g', hj, hg, ht⟩ := h
  exact ⟨j, g', hj, by rw [List.getElem?_append_left (List.getElem?_eq_some_iff.1 hg).1]; exact hg, ht⟩

/-- **What one more segment writes.** -/
theorem writtenSince_append_iff {diskSize : U64} {flushedAt : U64 → Nat} {log : List Segment} {b : U64} (g : Segment)
    (hpast : ∀ k, flushedAt k ≤ log.length) : WrittenSince ramSize diskSize flushedAt (log ++ [g]) b ↔
      WrittenSince ramSize diskSize flushedAt log b ∨
      (g.type = virtioBlkTOut ∧ g.passes diskSize ramSize = true ∧ (b - g.diskOffset).toNat < g.len.toNat) := by
  constructor
  · rintro ⟨j, g', hj, hg, ht⟩
    rcases Nat.lt_or_ge j log.length with hl | hl
    · rw [List.getElem?_append_left hl] at hg
      exact .inl ⟨j, g', hj, hg, ht⟩
    · rw [List.getElem?_append_right hl, List.getElem?_singleton] at hg
      split at hg
      · cases hg
        exact .inr ht
      · cases hg
  · rintro (h | ht)
    · exact h.append ramSize g
    · exact ⟨log.length, g, hpast _, by rw [List.getElem?_append_right (Nat.le_refl _), Nat.sub_self]; rfl, ht⟩

/-- **The blocks the callback marks are those the bytes lie in.** -/
theorem dirtySet_iff (bits : U64 → Bool) (off len k : U64) (hl : 0 < len.toNat)
    (hw : off.toNat + len.toNat + 4095 < 2 ^ 64) :
    dirtySet bits (off / diskBlockSize) ((off + len + diskBlockSize - 1) / diskBlockSize) k = true ↔
      bits k = true ∨ ∃ b, b / diskBlockSize = k ∧ (b - off).toNat < len.toNat := by
  have hbs : diskBlockSize.toNat = 4096 := rfl
  have hend : ((off + len + diskBlockSize - 1) / diskBlockSize).toNat = (off.toNat + len.toNat + 4095) / 4096 := by
    rw [BitVec.toNat_udiv, BitVec.toNat_sub, BitVec.toNat_add, BitVec.toNat_add, hbs]
    have : (1 : U64).toNat = 1 := rfl
    omega
  have hstart : (off / diskBlockSize).toNat = off.toNat / 4096 := by rw [BitVec.toNat_udiv, hbs]
  unfold dirtySet
  rw [Bool.or_eq_true, Bool.and_eq_true, decide_eq_true_iff, decide_eq_true_iff, BitVec.le_def, BitVec.lt_def, hend, hstart]
  refine or_congr Iff.rfl ⟨?_, ?_⟩
  · rintro ⟨h1, h2⟩
    -- the first byte of the range that lies in block `k`
    refine ⟨BitVec.ofNat 64 (max off.toNat (4096 * k.toNat)), ?_, ?_⟩
    · apply BitVec.eq_of_toNat_eq
      rw [BitVec.toNat_udiv, hbs, BitVec.toNat_ofNat]
      omega
    · rw [BitVec.toNat_sub, BitVec.toNat_ofNat]
      omega
  · rintro ⟨b, rfl, hb⟩
    rw [BitVec.toNat_sub] at hb
    rw [BitVec.toNat_udiv, hbs]
    omega

/-- **What a data descriptor leaves on the disk and in the bitmap.** -/
theorem virtioBlkData_effect (dev : VirtioDev) (w : BlkWalk) (d : VringDesc) :
    (∃ ram log, (virtioBlkData dev ramSize w d).mem = { w.mem with ram := ram, log := log } ∧
      (log = w.mem.log ∨ log = w.mem.log ++ [w.segment d] ∧
        ¬ (w.hdr.type = virtioBlkTOut ∧ (w.segment d).passes dev.disk_size ramSize = true))) ∨
    (w.hdr.type = virtioBlkTOut ∧ (w.segment d).passes dev.disk_size ramSize = true ∧
      (virtioBlkData dev ramSize w d).mem = ((w.note d).copyOut dev d).mem) := by
  have hs : (w.note d).segment d = w.segment d := rfl
  unfold virtioBlkData
  by_cases hin : w.hdr.type = virtioBlkTIn
  · rw [if_pos hin, virtioBlkIn_eq, hs]
    refine .inl ?_
    have hnot : ¬ (w.hdr.type = virtioBlkTOut ∧ (w.segment d).passes dev.disk_size ramSize = true) := by
      rw [hin]
      exact fun h => absurd h.1 (by decide)
    split
    · exact ⟨_, _, rfl, .inr ⟨rfl, hnot⟩⟩
    · exact ⟨w.mem.ram, _, rfl, .inr ⟨rfl, hnot⟩⟩
  · rw [if_neg hin]
    by_cases hout : w.hdr.type = virtioBlkTOut
    · rw [if_pos hout, virtioBlkOut_eq, hs]
      cases hp : (w.segment d).passes dev.disk_size ramSize with
      | true => exact .inr ⟨hout, rfl, rfl⟩
      | false => exact .inl ⟨w.mem.ram, _, rfl, .inr ⟨rfl, fun h => by cases h.2⟩⟩
    · rw [if_neg hout]
      refine .inl ⟨w.mem.ram, w.mem.log, ?_, .inl rfl⟩
      split <;> rfl

/-- **A segment that writes nothing keeps the bitmap exact.** -/
theorem Tracked.note {diskSize : U64} {flushed : Mem} {flushedAt : U64 → Nat} {m : BlkMem}
    (h : Tracked ramSize diskSize flushed flushedAt m) (g : Segment) (ram : Mem)
    (hg : ¬ (g.type = virtioBlkTOut ∧ g.passes diskSize ramSize = true)) :
    Tracked ramSize diskSize flushed flushedAt { m with ram := ram, log := m.log ++ [g] } := by
  have hiff : ∀ b, WrittenSince ramSize diskSize flushedAt (m.log ++ [g]) b ↔
      WrittenSince ramSize diskSize flushedAt m.log b := by
    intro b
    rw [writtenSince_append_iff ramSize g h.past, or_iff_left]
    exact fun hw => hg ⟨hw.1, hw.2.1⟩
  obtain ⟨bits, hb, hbits⟩ := h.bits
  refine ⟨⟨bits, hb, fun k => ?_⟩, fun b hne => (hiff b).2 (h.changed b hne), fun k => ?_⟩
  · rw [hbits k]
    exact exists_congr fun b => and_congr_right fun _ => (hiff b).symm
  · rw [List.length_append]
    exact Nat.le_add_right_of_le (h.past k)

/-- **A reported write keeps the bitmap exact.** -/
theorem Tracked.write {flushed : Mem} {flushedAt : U64 → Nat} (dev : VirtioDev) (w : BlkWalk)
    (h : Tracked ramSize dev.disk_size flushed flushedAt w.mem) (d : VringDesc) (hout : w.hdr.type = virtioBlkTOut)
    (hp : (w.segment d).passes dev.disk_size ramSize = true) (hseg : SegmentTracked ramSize dev (w.segment d)) :
    Tracked ramSize dev.disk_size flushed flushedAt ((w.note d).copyOut dev d).mem := by
  have hiff : ∀ b, WrittenSince ramSize dev.disk_size flushedAt (w.mem.log ++ [w.segment d]) b ↔
      WrittenSince ramSize dev.disk_size flushedAt w.mem.log b ∨ (b - w.hdr.sector * 512).toNat < d.len.toNat := by
    intro b
    rw [writtenSince_append_iff ramSize _ h.past]
    exact or_congr Iff.rfl ⟨fun hw => hw.2.2, fun hw => ⟨hout, hp, hw⟩⟩
  obtain ⟨bits, hb, hbits⟩ := h.bits
  refine ⟨?_, fun b hne => (hiff b).2 ?_, fun k => ?_⟩
  · show ∃ bits', (if dev.mark_dirty then vmDirtyCallback w.mem.vm_disk_dirty (w.hdr.sector * 512) (d.len.setWidth 64)
        else w.mem.vm_disk_dirty) = some bits' ∧ ∀ k, bits' k = true ↔ ∃ b, b / diskBlockSize = k ∧
          WrittenSince ramSize dev.disk_size flushedAt (w.mem.log ++ [w.segment d]) b
    rcases Nat.eq_zero_or_pos d.len.toNat with h0 | hpos
    · refine ⟨bits, ?_, fun k => ?_⟩
      · have hz : d.len.setWidth 64 = 0 := by
          apply BitVec.eq_of_toNat_eq
          rw [len_toNat, h0]
          rfl
        rw [hb, hz]
        unfold vmDirtyCallback
        split <;> rfl
      · rw [hbits k]
        refine exists_congr fun b => and_congr_right fun _ => ?_
        rw [hiff b, or_iff_left (by omega)]
    · obtain ⟨hmark, hwrap⟩ := hseg hout hp hpos
      have hne : d.len.setWidth 64 ≠ 0 := by
        intro hz
        rw [← len_toNat, hz] at hpos
        exact absurd hpos (by decide)
      refine ⟨dirtySet bits (w.hdr.sector * 512 / diskBlockSize)
        ((w.hdr.sector * 512 + d.len.setWidth 64 + diskBlockSize - 1) / diskBlockSize), ?_, fun k => ?_⟩
      · rw [if_pos hmark, hb]
        exact if_neg hne
      · rw [dirtySet_iff _ _ _ _ (by rwa [len_toNat]) (by rw [len_toNat]; exact hwrap), hbits k, ← exists_or]
        refine exists_congr fun b => ?_
        rw [hiff b, len_toNat, ← and_or_left]
  · by_cases hin : (b - w.hdr.sector * 512).toNat < d.len.toNat
    · exact .inr hin
    · refine .inl (h.changed b fun heq => hne ?_)
      exact (Mem.copy_of_le _ _ _ _ _ _ (Nat.not_lt.1 hin)).trans heq
  · have hlog : ((w.note d).copyOut dev d).mem.log = w.mem.log ++ [w.segment d] := rfl
    rw [hlog, List.length_append]
    exact Nat.le_add_right_of_le (h.past k)

theorem Tracked.ram {diskSize : U64} {flushed : Mem} {flushedAt : U64 → Nat} {m : BlkMem}
    (h : Tracked ramSize diskSize flushed flushedAt m) (ram : Mem) :
    Tracked ramSize diskSize flushed flushedAt { m with ram := ram } := ⟨h.bits, h.changed, h.past⟩

/-! ## What every data segment keeps, the device keeps -/

/-- The device is the same one, with the same disk. -/
def SameDisk (dev dev' : VirtioDev) : Prop := dev'.device_id = dev.device_id ∧ dev'.disk_size = dev.disk_size

/-- **No register write changes what the device is or how large its disk is**, the reset included. -/
theorem virtioRegStore_sameDisk (dev : VirtioDev) (offset val : U64) : SameDisk dev (virtioRegStore dev offset val) := by
  unfold virtioRegStore
  repeat' (apply iteInduction <;> intro _)
  all_goals exact ⟨rfl, rfl⟩

/-- **What a register write does to a block device**: it runs a queue, or leaves memory, identity and disk alone. -/
theorem virtioMmioStore_cases [NetDevice] (dev : VirtioDev) (hid : dev.device_id = virtioDevBlk) (offset val : U64)
    (mem : BlkMem) :
    (∃ qi, virtioMmioStore dev ramSize offset val mem = virtioBlkProcessQueue dev ramSize qi mem) ∨
    ((virtioMmioStore dev ramSize offset val mem).1 = mem ∧
      SameDisk dev (virtioMmioStore dev ramSize offset val mem).2) := by
  unfold virtioMmioStore virtioNotify
  rw [if_pos hid]
  split
  · split
    · exact .inl ⟨_, rfl⟩
    · exact .inr ⟨rfl, rfl, rfl⟩
  · exact .inr ⟨rfl, virtioRegStore_sameDisk dev offset val⟩

section Keeps

variable {ramSize} {P : BlkMem → Prop} (dev : VirtioDev)
  (hram : ∀ m ram, P m → P { m with ram := ram })
  (hdata : ∀ w d, P w.mem → P (virtioBlkData dev ramSize w d).mem)

include hdata in
theorem virtioBlkRequest_keeps (vq : VirtioQueue) (mem : BlkMem) (descHead : U16) (h : P mem) :
    P (virtioBlkRequest dev vq ramSize mem descHead).mem := by
  refine virtioBlkWalk_keeps (P := fun w => P w.mem) dev vq ramSize (fun w hw => ?_) _ _ h
  rcases virtioBlkDesc_cases dev vq ramSize w with ⟨-, he⟩ | ⟨-, hdr, idx, he⟩ | ⟨-, idx, he⟩ | ⟨-, d, idx, he⟩ <;>
    rw [he]
  · exact hw
  · exact hw
  · exact hw
  · exact hdata w d hw

include hram hdata in
theorem virtioBlkLoop_keeps : ∀ (n : Nat) (mem : BlkMem) (vq : VirtioQueue), P mem →
    P (virtioBlkLoop dev ramSize n mem vq).1
  | 0, _, _, h => h
  | n + 1, mem, vq, h => by
    unfold virtioBlkLoop
    dsimp only
    split
    · exact h
    · exact virtioBlkLoop_keeps n _ _ (hram _ _ (virtioBlkRequest_keeps dev hdata vq mem _ h))

include hram hdata in
theorem virtioBlkProcessQueue_keeps (qi : U32) (mem : BlkMem) (h : P mem) :
    P (virtioBlkProcessQueue dev ramSize qi mem).1 := by
  unfold virtioBlkProcessQueue
  dsimp only
  split
  · exact h
  · split
    · exact h
    · exact virtioBlkLoop_keeps dev hram hdata _ _ _ h

include hram hdata in
/-- **A register write keeps what every data segment keeps.** -/
theorem virtioMmioStore_keeps [NetDevice] (hid : dev.device_id = virtioDevBlk) (offset val : U64) (mem : BlkMem) (h : P mem) :
    P (virtioMmioStore dev ramSize offset val mem).1 := by
  rcases virtioMmioStore_cases ramSize dev hid offset val mem with ⟨qi, he⟩ | ⟨he, -⟩ <;> rw [he]
  · exact virtioBlkProcessQueue_keeps dev hram hdata qi mem h
  · exact h

end Keeps

theorem virtioBlkProcessQueue_sameDisk (dev : VirtioDev) (qi : U32) (mem : BlkMem) :
    SameDisk dev (virtioBlkProcessQueue dev ramSize qi mem).2 := by
  unfold virtioBlkProcessQueue
  dsimp only
  repeat' split
  all_goals exact ⟨rfl, rfl⟩

theorem virtioMmioStore_sameDisk [NetDevice] (dev : VirtioDev) (hid : dev.device_id = virtioDevBlk) (offset val : U64)
    (mem : BlkMem) : SameDisk dev (virtioMmioStore dev ramSize offset val mem).2 := by
  rcases virtioMmioStore_cases ramSize dev hid offset val mem with ⟨qi, he⟩ | ⟨-, he⟩
  · rw [he]
    exact virtioBlkProcessQueue_sameDisk ramSize dev qi mem
  · exact he

/-! ## Runs -/

/-- A run from boot, with what the bitmap keeps. -/
structure RunOk (s : DiskRun) : Prop where
  device : s.dev.device_id = virtioDevBlk
  tracked : Tracked ramSize s.dev.disk_size s.flushed s.flushed_at s.mem

/-- **At boot nothing is written and no bit is set.** -/
theorem RunOk.boot (ram disk : Mem) (diskSize : U64) (rows : VmBlocks) : RunOk ramSize (.boot ram disk diskSize rows) := by
  have hnone : ∀ b, ¬ WrittenSince ramSize diskSize (fun _ => 0) [] b := by
    rintro b ⟨j, g, -, hg, -⟩
    cases hg
  refine ⟨rfl, ⟨⟨fun _ => false, rfl, fun k => ⟨fun h => ?_, ?_⟩⟩, fun b hne => absurd rfl hne, fun k => Nat.le_refl _⟩⟩
  · cases h
  · rintro ⟨b, -, hw⟩
    exact absurd hw (hnone b)

theorem wasFlushed_iff (bits bits' : U64 → Bool) (k : U64) :
    wasFlushed (some bits) (some bits') k = true ↔ bits k = true ∧ bits' k = false := by
  simp [wasFlushed]

/-- **After a flush, the writes that still stand are those outside the flushed blocks.** -/
theorem writtenSince_flush_iff {diskSize : U64} {flushedAt : U64 → Nat} {log : List Segment} (was : U64 → Bool) (b : U64) :
    WrittenSince ramSize diskSize (fun k => if was k then log.length else flushedAt k) log b ↔
      WrittenSince ramSize diskSize flushedAt log b ∧ was (b / diskBlockSize) = false := by
  unfold WrittenSince
  cases hwas : was (b / diskBlockSize) with
  | true =>
    simp only [hwas, ↓reduceIte]
    constructor
    · rintro ⟨j, g, hj, hg, -⟩
      have := (List.getElem?_eq_some_iff.1 hg).1
      omega
    · rintro ⟨-, h⟩
      cases h
  | false => simp only [hwas, Bool.false_eq_true, ↓reduceIte, and_true]

theorem RunOk.exact (s : DiskRun) (h : RunOk ramSize s) : DirtyExact ramSize s := by
  obtain ⟨bits, hb, hbits⟩ := h.tracked.bits
  have hany : ∀ k, s.mem.vm_disk_dirty.any (fun bits => bits k) = bits k := by
    intro k
    rw [hb]
    rfl
  refine ⟨fun b hw => ?_, fun b hne => ?_, fun k hk => ?_⟩
  · rw [hany]
    exact (hbits _).2 ⟨b, rfl, hw⟩
  · rw [hany]
    exact (hbits _).2 ⟨b, rfl, h.tracked.changed b hne⟩
  · rw [hany] at hk
    exact (hbits k).1 hk

section Run

variable [NetDevice]

def DiskRun.step (s : DiskRun) : DiskOp → DiskRun
  | .load _ _ => s
  | .store offset val =>
    let r := virtioMmioStore s.dev ramSize offset val s.mem
    { s with mem := r.1, dev := r.2 }
  | .guestStores ram => { s with mem := { s.mem with ram := ram } }
  | .flush =>
    let r := workerFlushDirtyBlocks s.mem.disk s.dev.disk_size s.mem.vm_disk_dirty s.vm_blocks
    { s with
      mem := { s.mem with vm_disk_dirty := r.1 }
      vm_blocks := r.2
      flushed := fun b => if wasFlushed s.mem.vm_disk_dirty r.1 (b / diskBlockSize) then s.mem.disk b else s.flushed b
      flushed_at := fun k => if wasFlushed s.mem.vm_disk_dirty r.1 k then s.mem.log.length else s.flushed_at k }

/-- The condition on a step: the writes it completes are tracked. -/
def StepTracked (s : DiskRun) (op : DiskOp) : Prop :=
  ∀ g ∈ (s.step ramSize op).mem.log.drop s.mem.log.length, SegmentTracked ramSize s.dev g

/-- **The log only grows, and while every new segment is tracked the bitmap stays exact.** -/
theorem RunOk.store (s : DiskRun) (h : RunOk ramSize s) (offset val : U64)
    (hseg : StepTracked ramSize s (.store offset val)) : RunOk ramSize (s.step ramSize (.store offset val)) := by
  have hkeep := @virtioMmioStore_keeps ramSize
    (fun m => s.mem.log.length ≤ m.log.length ∧
      ((∀ g ∈ m.log.drop s.mem.log.length, SegmentTracked ramSize s.dev g) →
        Tracked ramSize s.dev.disk_size s.flushed s.flushed_at m)) s.dev
    (fun m ram hm => ⟨hm.1, fun hall => (hm.2 hall).ram ramSize ram⟩) ?_ _ h.device offset val s.mem
    ⟨Nat.le_refl _, fun _ => h.tracked⟩
  · obtain ⟨hid, hsize⟩ := virtioMmioStore_sameDisk ramSize s.dev h.device offset val s.mem
    have ht := hkeep.2 hseg
    refine ⟨hid.trans h.device, ?_⟩
    show Tracked ramSize (virtioMmioStore s.dev ramSize offset val s.mem).2.disk_size s.flushed s.flushed_at _
    rw [hsize]
    exact ht
  · rintro w d ⟨hlen, hw⟩
    rcases virtioBlkData_effect ramSize s.dev w d with ⟨ram, log, he, rfl | ⟨rfl, hnot⟩⟩ | ⟨hout, hp, he⟩
    · rw [he]
      exact ⟨hlen, fun hall => (hw hall).ram ramSize ram⟩
    · rw [he]
      refine ⟨by rw [List.length_append]; omega, fun hall => ?_⟩
      rw [List.drop_append_of_le_length hlen, List.forall_mem_append] at hall
      exact (hw hall.1).note ramSize (w.segment d) ram hnot
    · rw [he]
      have hlog : ((w.note d).copyOut s.dev d).mem.log = w.mem.log ++ [w.segment d] := rfl
      rw [hlog]
      refine ⟨by rw [List.length_append]; omega, fun hall => ?_⟩
      rw [List.drop_append_of_le_length hlen, List.forall_mem_append] at hall
      exact (hw hall.1).write ramSize s.dev w d hout hp (hall.2 _ (List.mem_singleton_self _))

/-- **A flush takes exactly the persisted blocks out of the bitmap.** -/
theorem RunOk.flush (s : DiskRun) (h : RunOk ramSize s) : RunOk ramSize (s.step ramSize .flush) := by
  obtain ⟨bits, hb, hbits⟩ := h.tracked.bits
  obtain ⟨bits', hb', hblk⟩ := workerFlushDirtyBlocks_block s.mem.disk s.dev.disk_size bits s.vm_blocks
  rw [← hb] at hb'
  have hwas : ∀ k, wasFlushed s.mem.vm_disk_dirty
      (workerFlushDirtyBlocks s.mem.disk s.dev.disk_size s.mem.vm_disk_dirty s.vm_blocks).1 k = true ↔
        bits k = true ∧ bits' k = false := by
    intro k
    rw [hb', hb]
    exact wasFlushed_iff bits bits' k
  refine ⟨h.device, ⟨⟨bits', hb', fun k => ?_⟩, fun b hne => ?_, fun k => ?_⟩⟩
  · have hrw : ∀ b, WrittenSince ramSize s.dev.disk_size (s.step ramSize .flush).flushed_at s.mem.log b ↔ _ :=
      fun b => writtenSince_flush_iff ramSize _ b
    show bits' k = true ↔ ∃ b, b / diskBlockSize = k ∧
      WrittenSince ramSize s.dev.disk_size (s.step ramSize .flush).flushed_at s.mem.log b
    constructor
    · intro hk
      rcases hblk k with ⟨heq, -⟩ | ⟨-, hf, -⟩
      · rw [heq, hbits k] at hk
        obtain ⟨b, rfl, hw⟩ := hk
        refine ⟨b, rfl, (hrw b).2 ⟨hw, ?_⟩⟩
        by_contra hne
        have := (hwas _).1 (Bool.of_not_eq_false hne)
        rw [← heq, this.2] at this
        cases this.1
      · rw [hf] at hk
        cases hk
    · rintro ⟨b, rfl, hw⟩
      obtain ⟨hw, hnot⟩ := (hrw b).1 hw
      have hbit := (hbits _).2 ⟨b, rfl, hw⟩
      by_contra hk
      rw [(hwas _).2 ⟨hbit, Bool.of_not_eq_true hk⟩] at hnot
      cases hnot
  · refine (writtenSince_flush_iff ramSize _ b).2 ?_
    show WrittenSince ramSize s.dev.disk_size s.flushed_at s.mem.log b ∧ _
    have hne' : s.mem.disk b ≠ if wasFlushed s.mem.vm_disk_dirty
        (workerFlushDirtyBlocks s.mem.disk s.dev.disk_size s.mem.vm_disk_dirty s.vm_blocks).1 (b / diskBlockSize)
        then s.mem.disk b else s.flushed b := hne
    split at hne'
    · exact absurd rfl hne'
    · rename_i hnot
      exact ⟨h.tracked.changed b hne', Bool.of_not_eq_true hnot⟩
  · show (if _ then _ else _) ≤ s.mem.log.length
    split
    · exact Nat.le_refl _
    · exact h.tracked.past k

/-- **One step keeps the bitmap exact when the writes it completes are tracked.** -/
theorem RunOk.step (s : DiskRun) (h : RunOk ramSize s) (op : DiskOp) (hop : StepTracked ramSize s op) :
    RunOk ramSize (s.step ramSize op) := by
  cases op with
  | load offset size => exact h
  | store offset val => exact h.store ramSize s offset val hop
  | guestStores ram => exact ⟨h.device, h.tracked.ram ramSize ram⟩
  | flush => exact h.flush ramSize s

def DiskRun.run (s : DiskRun) (ops : List DiskOp) : DiskRun := ops.foldl (DiskRun.step ramSize) s

/-- Every step of a run meets the condition at the state it starts from. -/
def RunTracked (s : DiskRun) : List DiskOp → Prop
  | [] => True
  | op :: ops => StepTracked ramSize s op ∧ RunTracked (s.step ramSize op) ops

instance (s : DiskRun) (op : DiskOp) : Decidable (StepTracked ramSize s op) :=
  inferInstanceAs (Decidable (∀ g ∈ _, SegmentTracked ramSize s.dev g))

instance RunTracked.decidable : ∀ (s : DiskRun) (ops : List DiskOp), Decidable (RunTracked ramSize s ops)
  | _, [] => isTrue trivial
  | s, op :: ops =>
    have := RunTracked.decidable (s.step ramSize op) ops
    inferInstanceAs (Decidable (StepTracked ramSize s op ∧ RunTracked ramSize (s.step ramSize op) ops))

theorem RunOk.run : ∀ (ops : List DiskOp) (s : DiskRun), RunOk ramSize s → RunTracked ramSize s ops →
    RunOk ramSize (s.run ramSize ops)
  | [], _, h, _ => h
  | op :: ops, s, h, hall => RunOk.run ops _ (h.step ramSize s op hall.1) hall.2

/-- **From boot, the dirty bitmap is exact as long as every completed write is tracked**, whatever the guest writes to
the registers, resets included. -/
theorem dirtyExact_of_runTracked (ram disk : Mem) (diskSize : U64) (rows : VmBlocks) (ops : List DiskOp)
    (hops : RunTracked ramSize (.boot ram disk diskSize rows) ops) :
    DirtyExact ramSize ((DiskRun.boot ram disk diskSize rows).run ramSize ops) :=
  (RunOk.run ramSize ops _ (RunOk.boot ramSize ram disk diskSize rows) hops).exact ramSize

end Run

/-! ## A reset loses the callback -/

section Silent

local instance : NetDevice := NetDevice.silent

/-- The driver sets up queue 0 at the start of RAM and notifies it. -/
def driverSetup : List DiskOp :=
  [.store 0x038 4, .store 0x080 0x80000000, .store 0x090 0x80000800, .store 0x0A0 0x80000900, .store 0x044 1,
    .store 0x050 0]

/-- Guest RAM with a request to write ones to sector 0. -/
def writeRequestRam : Mem := (blkChain 1 0).write 0x200 8 0xFFFFFFFFFFFFFFFF

theorem dirtyExact_write : RunTracked 0x10000 (.boot writeRequestRam (fun _ => 0) 4096 fun _ _ => none) driverSetup ∧
    DirtyExact 0x10000 ((DiskRun.boot writeRequestRam (fun _ => 0) 4096 fun _ _ => none).run 0x10000 driverSetup) := by
  have hops : RunTracked 0x10000 (.boot writeRequestRam (fun _ => 0) 4096 fun _ _ => none) driverSetup := by
    decide +kernel
  exact ⟨hops, dirtyExact_of_runTracked 0x10000 writeRequestRam (fun _ => 0) 4096 _ driverSetup hops⟩

/-- A driver that resets the device first, as probing does, writes byte 0 and its block stays clean. -/
theorem not_dirtyExact_after_reset : ¬ DirtyExact 0x10000
    ((DiskRun.boot writeRequestRam (fun _ => 0) 4096 fun _ _ => none).run 0x10000 (.store 0x070 0 :: driverSetup)) := by
  intro h
  have hbit := h.changed 0 (by decide +kernel)
  revert hbit
  decide +kernel

end Silent

end PgLinux
