import PgLinux.Dma
/-!
# DiskBounds — which disk bytes a request reaches

The data segments of a request are those that its chain in guest memory presents: the descriptors between the header and
the last one.  The device passes over a writable one of one byte, which it takes for the status byte, and counts the
others in whole sectors.
-/
namespace PgLinux

variable (dev : VirtioDev) (vq : VirtioQueue) (ramSize : U64)

/-! ## One data segment -/

/-- The type of a request that moves data. -/
def BlkReqHdr.isIo (h : BlkReqHdr) : Prop := h.type = virtioBlkTIn ∨ h.type = virtioBlkTOut

/-- The copy of a read segment. -/
def BlkWalk.copyIn (w : BlkWalk) (d : VringDesc) : BlkWalk :=
  { w with
    mem := { w.mem with ram := w.mem.ram.copy (d.addr - ramBase) w.mem.disk (w.hdr.sector * 512) d.len.toNat }
    total_bytes := w.total_bytes + d.len }

/-- The copy of a write segment, and its report to the dirty bitmap. -/
def BlkWalk.copyOut (w : BlkWalk) (d : VringDesc) : BlkWalk :=
  { w with
    mem := { w.mem with
      disk := w.mem.disk.copy (w.hdr.sector * 512) w.mem.ram (d.addr - ramBase) d.len.toNat
      vm_disk_dirty := if dev.mark_dirty
        then vmDirtyCallback w.mem.vm_disk_dirty (w.hdr.sector * 512) (d.len.setWidth 64) else w.mem.vm_disk_dirty }
    total_bytes := w.total_bytes + d.len }

theorem len_toNat (d : VringDesc) : (d.len.setWidth 64).toNat = d.len.toNat := by
  rw [BitVec.toNat_setWidth, Nat.mod_eq_of_lt (by omega)]

theorem Segment.passes_of_lt (diskSize : U64) (g : Segment) (h : diskSize < g.diskOffset + g.len.setWidth 64) :
    g.passes diskSize ramSize = false := by
  unfold Segment.passes
  rw [decide_eq_false (by rwa [BitVec.not_le])]
  rfl

theorem Segment.passes_of_not_lt (diskSize : U64) (g : Segment) (h : ¬ diskSize < g.diskOffset + g.len.setWidth 64) :
    g.passes diskSize ramSize = guestInBounds ramSize g.addr (g.len.setWidth 64) := by
  unfold Segment.passes
  rw [decide_eq_true (by rwa [BitVec.not_lt] at h)]
  rfl

/-- **What a read segment does**: it copies the disk bytes at its offset to the guest exactly when it passes. -/
theorem virtioBlkIn_eq (w : BlkWalk) (d : VringDesc) : virtioBlkIn dev ramSize w d =
    if (w.segment d).passes dev.disk_size ramSize then w.copyIn d else { w with status := virtioBlkSIoerr } := by
  unfold virtioBlkIn
  by_cases h : dev.disk_size < w.hdr.sector * 512 + d.len.setWidth 64
  · rw [if_pos h, Segment.passes_of_lt ramSize dev.disk_size (w.segment d) h]
    rfl
  · rw [if_neg h, Segment.passes_of_not_lt ramSize dev.disk_size (w.segment d) h]
    dsimp only
    rw [guestWrite_snd]
    unfold guestWrite BlkWalk.copyIn
    rw [len_toNat]
    cases hb : guestInBounds ramSize d.addr (d.len.setWidth 64) with
    | true => rw [show guestInBounds ramSize (w.segment d).addr ((w.segment d).len.setWidth 64) = true from hb]; rfl
    | false => rw [show guestInBounds ramSize (w.segment d).addr ((w.segment d).len.setWidth 64) = false from hb]; rfl

/-- **What a write segment does**: it copies guest bytes to the disk at its offset exactly when it passes. -/
theorem virtioBlkOut_eq (w : BlkWalk) (d : VringDesc) : virtioBlkOut dev ramSize w d =
    if (w.segment d).passes dev.disk_size ramSize then w.copyOut dev d else { w with status := virtioBlkSIoerr } := by
  unfold virtioBlkOut
  by_cases h : dev.disk_size < w.hdr.sector * 512 + d.len.setWidth 64
  · rw [if_pos h, Segment.passes_of_lt ramSize dev.disk_size (w.segment d) h]
    rfl
  · rw [if_neg h, Segment.passes_of_not_lt ramSize dev.disk_size (w.segment d) h]
    dsimp only
    rw [guestRead_snd]
    unfold guestRead BlkWalk.copyOut
    rw [len_toNat]
    cases hb : guestInBounds ramSize d.addr (d.len.setWidth 64) with
    | true => rw [show guestInBounds ramSize (w.segment d).addr ((w.segment d).len.setWidth 64) = true from hb]; rfl
    | false => rw [show guestInBounds ramSize (w.segment d).addr ((w.segment d).len.setWidth 64) = false from hb]; rfl

/-- **What a data descriptor of a read or write request leaves**: the segment is logged, the sector advances by its
whole sectors, and a segment that does not pass marks the request failed. -/
theorem virtioBlkData_io (w : BlkWalk) (d : VringDesc) (h : w.hdr.isIo) :
    (virtioBlkData dev ramSize w d).mem.log = w.mem.log ++ [w.segment d] ∧
    (virtioBlkData dev ramSize w d).hdr = { w.hdr with sector := w.hdr.sector + (d.len / 512).setWidth 64 } ∧
    (virtioBlkData dev ramSize w d).phase = w.phase ∧
    (virtioBlkData dev ramSize w d).status =
      if (w.segment d).passes dev.disk_size ramSize then w.status else virtioBlkSIoerr := by
  have hs : (w.note d).segment d = w.segment d := rfl
  unfold virtioBlkData
  rcases h with h | h
  · rw [if_pos h, virtioBlkIn_eq, hs]
    cases (w.segment d).passes dev.disk_size ramSize <;> exact ⟨rfl, rfl, rfl, rfl⟩
  · rw [if_neg (by rw [h]; decide), if_pos h, virtioBlkOut_eq, hs]
    cases (w.segment d).passes dev.disk_size ramSize <;> exact ⟨rfl, rfl, rfl, rfl⟩

/-- **A request of another type moves no data.** -/
theorem virtioBlkData_not_io (w : BlkWalk) (d : VringDesc) (h : ¬ w.hdr.isIo) :
    (virtioBlkData dev ramSize w d).mem = w.mem ∧ (virtioBlkData dev ramSize w d).hdr = w.hdr ∧
    (virtioBlkData dev ramSize w d).phase = w.phase := by
  unfold BlkReqHdr.isIo at h
  rw [not_or] at h
  unfold virtioBlkData
  rw [if_neg h.1, if_neg h.2]
  split <;> exact ⟨rfl, rfl, rfl⟩

/-- **What a data descriptor leaves of the disk**: all of it, or the copy of a write segment that passes. -/
theorem virtioBlkData_disk (w : BlkWalk) (d : VringDesc) : (virtioBlkData dev ramSize w d).mem.disk = w.mem.disk ∨
    w.hdr.type = virtioBlkTOut ∧ (w.segment d).passes dev.disk_size ramSize = true ∧
      (virtioBlkData dev ramSize w d).mem.disk =
        w.mem.disk.copy (w.hdr.sector * 512) w.mem.ram (d.addr - ramBase) d.len.toNat := by
  have hs : (w.note d).segment d = w.segment d := rfl
  by_cases hio : w.hdr.isIo
  · unfold virtioBlkData
    rcases hio with h | h
    · rw [if_pos h, virtioBlkIn_eq, hs]
      refine .inl ?_
      split <;> rfl
    · rw [if_neg (by rw [h]; decide), if_pos h, virtioBlkOut_eq, hs]
      split
      next hpass => exact .inr ⟨h, hpass, rfl⟩
      next => exact .inl rfl
  · rw [(virtioBlkData_not_io dev ramSize w d hio).1]
    exact .inl rfl

/-! ## One descriptor -/

/-- **What one iteration of the walk does.** -/
theorem virtioBlkDesc_cases (w : BlkWalk) :
    ((virtioBlkDesc dev vq ramSize w).2 = false ∧
      (virtioBlkDesc dev vq ramSize w).1 = { w with status := virtioBlkSIoerr }) ∨
    (w.phase = 0 ∧ ∃ hdr idx, (virtioBlkDesc dev vq ramSize w).1 = { w with hdr := hdr, phase := 1, idx := idx }) ∨
    (w.phase ≠ 0 ∧ ∃ idx, (virtioBlkDesc dev vq ramSize w).1 = { w with phase := 2, idx := idx }) ∨
    (w.phase ≠ 0 ∧ ∃ d idx, (virtioBlkDesc dev vq ramSize w).1 = { virtioBlkData dev ramSize w d with idx := idx }) := by
  unfold virtioBlkDesc
  dsimp only
  split
  · exact .inl ⟨rfl, rfl⟩
  · by_cases hp : w.phase = 0
    · rw [if_pos hp]
      split
      · exact .inl ⟨rfl, rfl⟩
      · split
        · exact .inl ⟨rfl, rfl⟩
        · exact .inr (.inl ⟨hp, _, _, rfl⟩)
    · rw [if_neg hp]
      split
      · exact .inr (.inr (.inl ⟨hp, _, rfl⟩))
      · exact .inr (.inr (.inr ⟨hp, _, _, rfl⟩))

/-- **What every iteration keeps, the walk keeps.** -/
theorem virtioBlkWalk_keeps {P : BlkWalk → Prop} (h : ∀ w, P w → P (virtioBlkDesc dev vq ramSize w).1) :
    ∀ (n : Nat) (w : BlkWalk), P w → P (virtioBlkWalk dev vq ramSize n w)
  | 0, _, hw => hw
  | n + 1, w, hw => by
    unfold virtioBlkWalk
    split
    · exact virtioBlkWalk_keeps h n _ (h w hw)
    · exact h w hw

/-! ## The segments of a chain -/

/-- The descriptor that the walk comes to, in guest memory. -/
def BlkWalk.desc (w : BlkWalk) : VringDesc := .ofBytes (readDesc vq ramSize w.mem.ram w.idx fun _ => 0).1

def BlkWalk.readable (w : BlkWalk) : Bool := (readDesc vq ramSize w.mem.ram w.idx fun _ => 0).2

instance (h : BlkReqHdr) : Decidable h.isIo := inferInstanceAs (Decidable (_ ∨ _))

/-- A data segment of a read or write request, whatever the device makes of it: a descriptor between the header and the
last one of the chain. -/
def BlkWalk.isData (w : BlkWalk) : Bool :=
  decide (w.phase ≠ 0) && decide w.hdr.isIo && w.readable vq ramSize && (w.desc vq ramSize).hasNext

/-- The device takes it for the status byte. -/
def BlkWalk.skips (w : BlkWalk) : Bool := (w.desc vq ramSize).isWrite && decide ((w.desc vq ramSize).len = 1)

def BlkWalk.passes (w : BlkWalk) : Bool := (w.segment (w.desc vq ramSize)).passes dev.disk_size ramSize

/-- The device copies it. -/
def BlkWalk.copies (w : BlkWalk) : Bool := !w.skips vq ramSize && w.passes dev vq ramSize

/-- The disk bytes that the iteration at `w` reads or writes. -/
def BlkWalk.Touches (w : BlkWalk) (b : U64) : Prop :=
  w.isData vq ramSize = true ∧ w.copies dev vq ramSize = true ∧
    ∃ i < (w.desc vq ramSize).len.toNat, b = w.hdr.sector * 512 + BitVec.ofNat 64 i

theorem ioerr_ne_ok : virtioBlkSIoerr ≠ virtioBlkSOk := by decide

/-- The iteration at `w` fails the request. -/
def BlkWalk.fails (w : BlkWalk) : Bool :=
  !w.readable vq ramSize || (w.isData vq ramSize && !w.skips vq ramSize && !w.passes dev vq ramSize)

/-- Where a walk of at most `n` descriptors comes to. -/
def blkVisits : Nat → BlkWalk → List BlkWalk
  | 0, _ => []
  | n + 1, w => w :: if (virtioBlkDesc dev vq ramSize w).2 then blkVisits n (virtioBlkDesc dev vq ramSize w).1 else []

/-- Where the walk of a request comes to. -/
def requestVisits (mem : BlkMem) (descHead : U16) : List BlkWalk :=
  blkVisits dev vq ramSize vq.num.toNat (.start mem descHead)

/-- The data segments of a request, in chain order. -/
def requestSegments (mem : BlkMem) (descHead : U16) : List BlkWalk :=
  (requestVisits dev vq ramSize mem descHead).filter (BlkWalk.isData vq ramSize)

/-- The sector of the header that the first descriptor's buffer holds. -/
def requestSector (mem : BlkMem) (descHead : U16) : U64 :=
  (BlkReqHdr.ofBytes (guestRead mem.ram ramSize ((BlkWalk.start mem descHead).desc vq ramSize).addr (fun _ => 0) 0 16).1).sector

def BlkWalk.len (w : BlkWalk) : Nat := (w.desc vq ramSize).len.toNat

/-- The first byte that segment `j` designates: the request's sector and the segments before, in unbounded integers. -/
def designatedStart (s0 : U64) (segs : List BlkWalk) (j : Nat) : Nat :=
  512 * s0.toNat + ((segs.take j).map (BlkWalk.len vq ramSize)).sum

/-! ## What an iteration touches -/

def BlkWalk.withDisk (w : BlkWalk) (disk : Mem) : BlkWalk := { w with mem := { w.mem with disk := disk } }

/-- A descriptor between the first and the last: data, unless it has the shape of a status byte. -/
def chainData (ramSize : U64) (w : BlkWalk) (d : VringDesc) : BlkWalk :=
  if d.isWrite && decide (d.len = 1) then { w with phase := 2 } else virtioBlkData dev ramSize w d

section ChainData

variable {ramSize}

theorem virtioBlkData_phase (w : BlkWalk) (d : VringDesc) : (virtioBlkData dev ramSize w d).phase = w.phase := by
  by_cases ht : w.hdr.isIo
  · exact (virtioBlkData_io dev ramSize w d ht).2.2.1
  · exact (virtioBlkData_not_io dev ramSize w d ht).2.2

theorem chainData_phase {w : BlkWalk} (hphase : w.phase ≠ 0) (d : VringDesc) : (chainData dev ramSize w d).phase ≠ 0 := by
  unfold chainData
  split
  · exact Nat.succ_ne_zero 1
  · rwa [virtioBlkData_phase]

/-- The place of the walk: the sector advances by the whole sectors of each buffer. -/
theorem chainData_hdr {w : BlkWalk} (hio : w.hdr.isIo) (d : VringDesc) : (chainData dev ramSize w d).hdr =
    { w.hdr with sector := w.hdr.sector + (d.len / 512).setWidth 64 } := by
  unfold chainData
  split
  next h =>
    have hlen : d.len = 1 := by
      rw [Bool.and_eq_true, decide_eq_true_eq] at h
      exact h.2
    have hstay : w.hdr.sector + ((1 : U32) / 512).setWidth 64 = w.hdr.sector := BitVec.add_zero w.hdr.sector
    rw [hlen, hstay]
  next => exact (virtioBlkData_io dev ramSize w d hio).2.1

end ChainData

section Iteration

variable {dev vq ramSize} {w : BlkWalk}

theorem isData_iff : w.isData vq ramSize = true ↔
    w.phase ≠ 0 ∧ w.hdr.isIo ∧ w.readable vq ramSize = true ∧ (w.desc vq ramSize).hasNext = true := by
  unfold BlkWalk.isData
  rw [Bool.and_eq_true, Bool.and_eq_true, Bool.and_eq_true, decide_eq_true_iff, decide_eq_true_iff, and_assoc, and_assoc]

/-- **The walk at a descriptor behind the header** that has a next one goes on there. -/
theorem virtioBlkDesc_goes (hp : w.phase ≠ 0) (hr : w.readable vq ramSize = true)
    (hn : (w.desc vq ramSize).hasNext = true) : virtioBlkDesc dev vq ramSize w =
      ({ chainData dev ramSize w (w.desc vq ramSize) with idx := (w.desc vq ramSize).next }, true) := by
  unfold BlkWalk.desc at hn ⊢
  unfold BlkWalk.readable at hr
  unfold virtioBlkDesc chainData
  dsimp only
  rw [hr, if_neg hp, hn]
  simp only [Bool.not_true, Bool.false_eq_true, Bool.false_or, if_true, if_false]
  split <;> rfl

/-- **It ends** at one that cannot be read, which fails the request, and at the last one. -/
theorem virtioBlkDesc_ends (hp : w.phase ≠ 0) (h : ¬ (w.readable vq ramSize = true ∧ (w.desc vq ramSize).hasNext = true)) :
    virtioBlkDesc dev vq ramSize w = if w.readable vq ramSize then
        ({ w with phase := 2, idx := w.idx }, false) else ({ w with status := virtioBlkSIoerr }, false) := by
  unfold BlkWalk.desc at h
  unfold BlkWalk.readable at h ⊢
  unfold virtioBlkDesc
  dsimp only
  cases hr : (readDesc vq ramSize w.mem.ram w.idx fun _ => 0).2 with
  | false => rfl
  | true =>
    have hn := eq_false_of_ne_true fun hn => h ⟨hr, hn⟩
    rw [if_neg hp, hn]
    rfl

/-- A data descriptor leaves the request's status, or fails it. -/
theorem chainData_status (hio : w.hdr.isIo) (d : VringDesc) : (chainData dev ramSize w d).status =
    if (d.isWrite && decide (d.len = 1)) || (w.segment d).passes dev.disk_size ramSize then w.status
    else virtioBlkSIoerr := by
  unfold chainData
  cases d.isWrite && decide (d.len = 1) with
  | true => rfl
  | false => exact (virtioBlkData_io dev ramSize w d hio).2.2.2

/-- The bytes at and after an offset, by their number. -/
theorem exists_offset_iff (off b : U64) {n : Nat} (hn : n ≤ 2 ^ 64) :
    (∃ i < n, b = off + BitVec.ofNat 64 i) ↔ (b - off).toNat < n := by
  constructor
  · rintro ⟨i, hi, rfl⟩
    rw [BitVec.add_comm, BitVec.add_sub_cancel, BitVec.toNat_ofNat]
    omega
  · intro h
    exact ⟨(b - off).toNat, h, by rw [BitVec.ofNat_toNat, BitVec.setWidth_eq, BitVec.add_comm, BitVec.sub_add_cancel]⟩

/-- A data descriptor keeps the disk bytes that it does not copy to. -/
theorem chainData_keeps {d : VringDesc} {b : U64}
    (hb : w.hdr.type = virtioBlkTOut → (d.isWrite && decide (d.len = 1)) = false →
      (w.segment d).passes dev.disk_size ramSize = true → d.len.toNat ≤ (b - w.hdr.sector * 512).toNat) :
    (chainData dev ramSize w d).mem.disk b = w.mem.disk b := by
  unfold chainData
  split
  · rfl
  next hskip =>
    rcases virtioBlkData_disk dev ramSize w d with hdisk | ⟨ht, hpass, hdisk⟩
    · rw [hdisk]
    · rw [hdisk]
      exact Mem.copy_of_le _ _ _ _ _ _ (hb ht (eq_false_of_ne_true hskip) hpass)

/-- What a data descriptor gives the guest depends on no disk byte that it does not copy from. -/
theorem chainData_ignores {d : VringDesc} {disk : Mem}
    (hdisk : w.hdr.type = virtioBlkTIn → (d.isWrite && decide (d.len = 1)) = false →
      (w.segment d).passes dev.disk_size ramSize = true →
      ∀ b : U64, (b - w.hdr.sector * 512).toNat < d.len.toNat → disk b = w.mem.disk b) :
    ∃ disk', chainData dev ramSize (w.withDisk disk) d = (chainData dev ramSize w d).withDisk disk' := by
  have hs : ((w.withDisk disk).note d).segment d = (w.note d).segment d := rfl
  have hn : (w.note d).segment d = w.segment d := rfl
  unfold chainData
  split
  · exact ⟨disk, rfl⟩
  next hskip =>
    unfold virtioBlkData
    by_cases hin : w.hdr.type = virtioBlkTIn
    · rw [if_pos hin, if_pos (show (w.withDisk disk).hdr.type = virtioBlkTIn from hin), virtioBlkIn_eq, virtioBlkIn_eq, hs, hn]
      split
      next hpass =>
        have hcopy : w.mem.ram.copy (d.addr - ramBase) disk (w.hdr.sector * 512) d.len.toNat =
            w.mem.ram.copy (d.addr - ramBase) w.mem.disk (w.hdr.sector * 512) d.len.toNat := by
          funext a
          by_cases hlt : (a - (d.addr - ramBase)).toNat < d.len.toNat
          · rw [Mem.copy_of_lt _ _ _ _ _ _ hlt, Mem.copy_of_lt _ _ _ _ _ _ hlt]
            refine hdisk hin (eq_false_of_ne_true hskip) hpass _ ?_
            rwa [BitVec.add_comm (w.hdr.sector * 512), BitVec.add_sub_cancel]
          · rw [Mem.copy_of_le _ _ _ _ _ _ (Nat.not_lt.1 hlt), Mem.copy_of_le _ _ _ _ _ _ (Nat.not_lt.1 hlt)]
        refine ⟨disk, ?_⟩
        unfold BlkWalk.copyIn BlkWalk.advance BlkWalk.note BlkWalk.withDisk
        dsimp only
        rw [hcopy]
        rfl
      next => exact ⟨disk, rfl⟩
    · rw [if_neg hin, if_neg (show ¬ (w.withDisk disk).hdr.type = virtioBlkTIn from hin)]
      by_cases hout : w.hdr.type = virtioBlkTOut
      · rw [if_pos hout, if_pos (show (w.withDisk disk).hdr.type = virtioBlkTOut from hout), virtioBlkOut_eq, virtioBlkOut_eq,
          hs, hn]
        split <;> exact ⟨_, rfl⟩
      · rw [if_neg hout, if_neg (show ¬ (w.withDisk disk).hdr.type = virtioBlkTOut from hout)]
        refine ⟨disk, ?_⟩
        by_cases hflush : w.hdr.type = virtioBlkTFlush
        · rw [if_pos hflush, if_pos (show (w.withDisk disk).hdr.type = virtioBlkTFlush from hflush)]
          rfl
        · rw [if_neg hflush, if_neg (show ¬ (w.withDisk disk).hdr.type = virtioBlkTFlush from hflush)]
          rfl

/-- **What the iteration at a data descriptor touches.** -/
theorem touches_iff {b : U64} (hdata : w.isData vq ramSize = true) : w.Touches dev vq ramSize b ↔
    w.copies dev vq ramSize = true ∧ (b - w.hdr.sector * 512).toNat < (w.desc vq ramSize).len.toNat := by
  have hlen : (w.desc vq ramSize).len.toNat ≤ 2 ^ 64 := by omega
  unfold BlkWalk.Touches
  rw [and_iff_right hdata, exists_offset_iff _ _ hlen]

theorem copies_iff : w.copies dev vq ramSize = true ↔
    w.skips vq ramSize = false ∧ w.passes dev vq ramSize = true := by
  unfold BlkWalk.copies
  rw [Bool.and_eq_true, Bool.not_eq_true']

/-- The walk where no data is moved: at the header, at a status byte, at the end of the chain. -/
theorem virtioBlkDesc_mem (h : w.isData vq ramSize = false) : (virtioBlkDesc dev vq ramSize w).1.mem = w.mem := by
  by_cases hp : w.phase = 0
  · rcases virtioBlkDesc_cases dev vq ramSize w with ⟨-, hw⟩ | ⟨-, _, _, hw⟩ | ⟨hp', -⟩ | ⟨hp', -⟩
    · rw [hw]
    · rw [hw]
    · exact absurd hp hp'
    · exact absurd hp hp'
  · by_cases hgo : w.readable vq ramSize = true ∧ (w.desc vq ramSize).hasNext = true
    · have hio : ¬ w.hdr.isIo := fun hio => absurd (isData_iff.2 ⟨hp, hio, hgo⟩) (ne_true_of_eq_false h)
      rw [virtioBlkDesc_goes hp hgo.1 hgo.2]
      unfold chainData
      split
      · rfl
      · exact (virtioBlkData_not_io dev ramSize w _ hio).1
    · rw [virtioBlkDesc_ends hp hgo]
      split <;> rfl

/-- **An iteration keeps every disk byte that it does not touch.** -/
theorem virtioBlkDesc_keeps {b : U64} (h : ¬ w.Touches dev vq ramSize b) :
    (virtioBlkDesc dev vq ramSize w).1.mem.disk b = w.mem.disk b := by
  cases hdata : w.isData vq ramSize with
  | false => rw [virtioBlkDesc_mem hdata]
  | true =>
    obtain ⟨hp, -, hr, hn⟩ := isData_iff.1 hdata
    rw [virtioBlkDesc_goes hp hr hn]
    refine chainData_keeps fun _ hskip hpass => Nat.not_lt.1 fun hlt => h ?_
    exact (touches_iff hdata).2 ⟨copies_iff.2 ⟨hskip, hpass⟩, hlt⟩

/-- **What it leaves but for the disk depends on no other disk byte.** -/
theorem virtioBlkDesc_ignores {disk : Mem} (hdata : w.isData vq ramSize = true)
    (h : ∀ b, w.Touches dev vq ramSize b → disk b = w.mem.disk b) :
    ∃ disk', virtioBlkDesc dev vq ramSize (w.withDisk disk) =
      ((virtioBlkDesc dev vq ramSize w).1.withDisk disk', (virtioBlkDesc dev vq ramSize w).2) := by
  obtain ⟨hp, -, hr, hn⟩ := isData_iff.1 hdata
  obtain ⟨disk', hdisk'⟩ := @chainData_ignores dev ramSize w (w.desc vq ramSize) disk fun _ hskip hpass b hb =>
    h b ((touches_iff hdata).2 ⟨copies_iff.2 ⟨hskip, hpass⟩, hb⟩)
  refine ⟨disk', ?_⟩
  have hd : (w.withDisk disk).desc vq ramSize = w.desc vq ramSize := rfl
  rw [virtioBlkDesc_goes hp hr hn,
    virtioBlkDesc_goes (show (w.withDisk disk).phase ≠ 0 from hp) (show (w.withDisk disk).readable vq ramSize = true from hr)
      (show ((w.withDisk disk).desc vq ramSize).hasNext = true from hn), hd, hdisk']
  rfl

end Iteration

section Request

variable {dev vq ramSize}

/-- **A request changes only disk bytes that one of its data segments touches.** -/
theorem virtioBlkWalk_keeps_disk {b : U64} : ∀ (n : Nat) (w : BlkWalk),
    (∀ v ∈ blkVisits dev vq ramSize n w, ¬ v.Touches dev vq ramSize b) →
      (virtioBlkWalk dev vq ramSize n w).mem.disk b = w.mem.disk b
  | 0, _, _ => rfl
  | n + 1, w, h => by
    have hstep := virtioBlkDesc_keeps (h w List.mem_cons_self)
    unfold virtioBlkWalk
    unfold blkVisits at h
    split
    next hgo =>
      rw [if_pos hgo] at h
      exact (virtioBlkWalk_keeps_disk n _ fun v hv => h v (List.mem_cons_of_mem _ hv)).trans hstep
    · exact hstep

end Request

/-! ## Sectors -/

theorem Segment.passes_end (diskSize : U64) (g : Segment) (h : g.passes diskSize ramSize = true) :
    (g.diskOffset.toNat + g.len.toNat) % 2 ^ 64 ≤ diskSize.toNat := by
  unfold Segment.passes at h
  rw [Bool.and_eq_true, decide_eq_true_iff, BitVec.le_def, BitVec.toNat_add, BitVec.toNat_setWidth,
    Nat.mod_eq_of_lt (a := g.len.toNat) (by omega)] at h
  exact h.1

/-- The 64-bit offset of a segment `k` whole sectors into the request. -/
theorem Segment.diskOffset_toNat (g : Segment) (s0 : U64) (k : Nat) (h : g.sector = s0 + BitVec.ofNat 64 k) :
    g.diskOffset.toNat = 512 * (s0.toNat + k) % 2 ^ 64 := by
  unfold Segment.diskOffset
  rw [h, BitVec.toNat_mul, BitVec.toNat_add, BitVec.toNat_ofNat]
  have : (512 : U64).toNat = 512 := rfl
  rw [this]
  omega

/-- **Machine and unbounded offsets agree exactly when nothing wraps and no sector was cut.** -/
theorem offset_exact_iff (base rest off len size : Nat) (hoff : off = base % 2 ^ 64) (hl0 : 0 < len)
    (hl : len < 2 ^ 32) (hs : size < 2 ^ 64) (hend : (off + len) % 2 ^ 64 ≤ size) :
    (∀ i < len, (off + i) % 2 ^ 64 < size ∧ base + rest ≤ (off + i) % 2 ^ 64 ∧ (off + i) % 2 ^ 64 < base + rest + len) ↔
    base + rest + len < 2 ^ 64 ∧ rest = 0 := by
  constructor
  · intro h
    have h0 := h 0 hl0
    rcases Nat.lt_or_ge (off + (len - 1)) (2 ^ 64) with hw | hw
    · have h1 := h (len - 1) (by omega)
      omega
    · have h1 := h (2 ^ 64 - off) (by omega)
      omega
  · rintro ⟨h1, h2⟩ i hi
    omega

/-! ## The walk of a request's segments -/

section Walk

variable {dev vq ramSize}

variable (dev vq ramSize) in
/-- Behind the header the walk keeps the type of the request. -/
theorem virtioBlkDesc_type {w : BlkWalk} (hp : w.phase ≠ 0) : (virtioBlkDesc dev vq ramSize w).1.phase ≠ 0 ∧
    (virtioBlkDesc dev vq ramSize w).1.hdr.type = w.hdr.type := by
  by_cases hgo : w.readable vq ramSize = true ∧ (w.desc vq ramSize).hasNext = true
  · rw [virtioBlkDesc_goes hp hgo.1 hgo.2]
    refine ⟨chainData_phase dev hp _, ?_⟩
    by_cases hio : w.hdr.isIo
    · show (chainData dev ramSize w (w.desc vq ramSize)).hdr.type = _
      rw [chainData_hdr dev hio]
    · unfold chainData
      split
      · rfl
      · exact congrArg BlkReqHdr.type (virtioBlkData_not_io dev ramSize w _ hio).2.1
  · rw [virtioBlkDesc_ends hp hgo]
    split
    · exact ⟨Nat.succ_ne_zero 1, rfl⟩
    · exact ⟨hp, rfl⟩

/-- The data segments among the next `n` descriptors. -/
def segmentsFrom (dev : VirtioDev) (vq : VirtioQueue) (ramSize : U64) (n : Nat) (w : BlkWalk) : List BlkWalk :=
  (blkVisits dev vq ramSize n w).filter (BlkWalk.isData vq ramSize)

theorem segmentsFrom_data {w : BlkWalk} (hdata : w.isData vq ramSize = true) (n : Nat) :
    segmentsFrom dev vq ramSize (n + 1) w = w :: segmentsFrom dev vq ramSize n (virtioBlkDesc dev vq ramSize w).1 := by
  obtain ⟨hp, -, hr, hn⟩ := isData_iff.1 hdata
  have hgo : (virtioBlkDesc dev vq ramSize w).2 = true := by rw [virtioBlkDesc_goes hp hr hn]
  unfold segmentsFrom
  rw [blkVisits, if_pos hgo, List.filter_cons_of_pos hdata]

theorem segmentsFrom_end {w : BlkWalk} (hp : w.phase ≠ 0) (hio : w.hdr.isIo) (hdata : ¬ w.isData vq ramSize = true) (n : Nat) :
    segmentsFrom dev vq ramSize (n + 1) w = [] := by
  have hend : (virtioBlkDesc dev vq ramSize w).2 = false := by
    rw [virtioBlkDesc_ends hp fun hgo => hdata (isData_iff.2 ⟨hp, hio, hgo⟩)]
    split <;> rfl
  unfold segmentsFrom
  rw [blkVisits, if_neg (ne_true_of_eq_false hend), List.filter_cons_of_neg hdata, List.filter_nil]

/-- **A request of another type has no data segments.** -/
theorem segmentsFrom_other : ∀ (n : Nat) (w : BlkWalk), w.phase ≠ 0 → ¬ w.hdr.isIo → segmentsFrom dev vq ramSize n w = []
  | 0, _, _, _ => rfl
  | n + 1, w, hp, hio => by
    obtain ⟨hp', htype⟩ := virtioBlkDesc_type dev vq ramSize hp
    have hdata : ¬ w.isData vq ramSize = true := fun hdata => hio (isData_iff.1 hdata).2.1
    have hio' : ¬ (virtioBlkDesc dev vq ramSize w).1.hdr.isIo := by
      unfold BlkReqHdr.isIo
      rwa [htype]
    unfold segmentsFrom
    rw [blkVisits, List.filter_cons_of_neg hdata]
    split
    · exact segmentsFrom_other n _ hp' hio'
    · rfl

/-- The whole sectors of the first segments. -/
def segmentSectors (vq : VirtioQueue) (ramSize : U64) (segs : List BlkWalk) : Nat :=
  (segs.map fun v => v.len vq ramSize / 512).sum

/-- **Each segment starts where the whole sectors of those before it lead**, modulo 2^64. -/
theorem segmentsFrom_sector : ∀ (n : Nat) (w : BlkWalk), w.phase ≠ 0 → w.hdr.isIo → ∀ j v,
    (segmentsFrom dev vq ramSize n w)[j]? = some v → v.hdr.sector =
      w.hdr.sector + BitVec.ofNat 64 (segmentSectors vq ramSize ((segmentsFrom dev vq ramSize n w).take j))
  | 0, _, _, _, j, v, h => by
    rw [show segmentsFrom dev vq ramSize 0 _ = [] from rfl] at h
    cases h
  | n + 1, w, hp, hio, j, v, h => by
    by_cases hdata : w.isData vq ramSize = true
    · rw [segmentsFrom_data hdata] at h ⊢
      cases j with
      | zero =>
        obtain rfl : w = v := Option.some.inj h
        exact (BitVec.add_zero _).symm
      | succ j =>
        obtain ⟨-, -, hr, hn⟩ := isData_iff.1 hdata
        obtain ⟨hp', htype⟩ := virtioBlkDesc_type dev vq ramSize hp
        have hio' : (virtioBlkDesc dev vq ramSize w).1.hdr.isIo := by
          unfold BlkReqHdr.isIo
          rwa [htype]
        have hsector : (virtioBlkDesc dev vq ramSize w).1.hdr.sector =
            w.hdr.sector + BitVec.ofNat 64 (w.len vq ramSize / 512) := by
          rw [virtioBlkDesc_goes hp hr hn]
          show (chainData dev ramSize w (w.desc vq ramSize)).hdr.sector = _
          rw [chainData_hdr dev hio]
          refine congrArg (w.hdr.sector + ·) (BitVec.eq_of_toNat_eq ?_)
          simp [BlkWalk.len]
        rw [segmentsFrom_sector n _ hp' hio' j v h, hsector, List.take_succ_cons, BitVec.add_assoc, ← BitVec.ofNat_add]
        rfl
    · rw [segmentsFrom_end hp hio hdata] at h
      cases h

theorem fails_iff {w : BlkWalk} : w.fails dev vq ramSize = true ↔ w.readable vq ramSize = false ∨
    w.isData vq ramSize = true ∧ w.skips vq ramSize = false ∧ w.passes dev vq ramSize = false := by
  unfold BlkWalk.fails
  rw [Bool.or_eq_true, Bool.and_eq_true, Bool.and_eq_true, Bool.not_eq_true', Bool.not_eq_true', Bool.not_eq_true', and_assoc]

variable (dev vq ramSize) in
theorem virtioBlkDesc_fails {w : BlkWalk} (hp : w.phase ≠ 0) (hio : w.hdr.isIo) :
    (virtioBlkDesc dev vq ramSize w).1.status ≠ virtioBlkSOk ↔
      w.status ≠ virtioBlkSOk ∨ w.fails dev vq ramSize = true := by
  rw [fails_iff]
  by_cases hgo : w.readable vq ramSize = true ∧ (w.desc vq ramSize).hasNext = true
  · have hstatus : (virtioBlkDesc dev vq ramSize w).1.status =
        if w.skips vq ramSize || w.passes dev vq ramSize then w.status else virtioBlkSIoerr := by
      rw [virtioBlkDesc_goes hp hgo.1 hgo.2]
      exact chainData_status hio _
    rw [hstatus, hgo.1, isData_iff.2 ⟨hp, hio, hgo⟩]
    cases w.skips vq ramSize <;> cases w.passes dev vq ramSize <;> simp [ioerr_ne_ok]
  · have hdata : ¬ w.isData vq ramSize = true := fun hdata => hgo (isData_iff.1 hdata).2.2
    rw [virtioBlkDesc_ends hp hgo]
    cases w.readable vq ramSize <;> simp [hdata, ioerr_ne_ok]

/-- **A read or write request fails** exactly where one of its iterations does. -/
theorem virtioBlkWalk_fails : ∀ (n : Nat) (w : BlkWalk), w.phase ≠ 0 → w.hdr.isIo →
    ((virtioBlkWalk dev vq ramSize n w).status ≠ virtioBlkSOk ↔
      w.status ≠ virtioBlkSOk ∨ ∃ v ∈ blkVisits dev vq ramSize n w, v.fails dev vq ramSize = true)
  | 0, w, _, _ => by simp [virtioBlkWalk, blkVisits]
  | n + 1, w, hp, hio => by
    have hstep := virtioBlkDesc_fails dev vq ramSize hp hio
    obtain ⟨hp', htype⟩ := virtioBlkDesc_type dev vq ramSize hp
    have hio' : (virtioBlkDesc dev vq ramSize w).1.hdr.isIo := by
      unfold BlkReqHdr.isIo
      rwa [htype]
    unfold virtioBlkWalk blkVisits
    split
    · rw [virtioBlkWalk_fails n _ hp' hio', hstep, or_assoc]
      simp only [List.mem_cons, exists_eq_or_imp]
    · rw [hstep]
      simp only [List.mem_singleton, exists_eq_left]

end Walk

/-- The walk past the header. -/
theorem virtioBlkDesc_started {mem : BlkMem} {descHead : U16}
    (hgo : (virtioBlkDesc dev vq ramSize (.start mem descHead)).2 = true) :
    (BlkWalk.start mem descHead).readable vq ramSize = true ∧
      (virtioBlkDesc dev vq ramSize (.start mem descHead)).1 = { BlkWalk.start mem descHead with
        hdr := .ofBytes (guestRead mem.ram ramSize ((BlkWalk.start mem descHead).desc vq ramSize).addr (fun _ => 0) 0 16).1
        phase := 1
        idx := (virtioBlkDesc dev vq ramSize (.start mem descHead)).1.idx } := by
  unfold BlkWalk.readable BlkWalk.desc
  unfold virtioBlkDesc at hgo ⊢
  dsimp only at hgo ⊢
  split at hgo
  · cases hgo
  next hr =>
    have hread : (readDesc vq ramSize (BlkWalk.start mem descHead).mem.ram (BlkWalk.start mem descHead).idx fun _ => 0).2 = true := by
      simpa using hr
    have hphase : (BlkWalk.start mem descHead).phase = 0 := rfl
    rw [if_neg hr, if_pos hphase]
    rw [if_pos hphase] at hgo
    split at hgo
    · cases hgo
    next hlen =>
      split at hgo
      · cases hgo
      next hh =>
        rw [if_neg hlen, if_neg hh]
        exact ⟨hread, rfl⟩

/-- **A request behind its header**: it has no segments, or those of the walk from there. -/
theorem requestSegments_cases (mem : BlkMem) (descHead : U16) : requestSegments dev vq ramSize mem descHead = [] ∨
    ∃ n w, w.phase ≠ 0 ∧ w.hdr.isIo ∧ w.status = virtioBlkSOk ∧ w.hdr.sector = requestSector vq ramSize mem descHead ∧
      requestSegments dev vq ramSize mem descHead = segmentsFrom dev vq ramSize n w ∧
      virtioBlkRequest dev vq ramSize mem descHead = virtioBlkWalk dev vq ramSize n w ∧
      ((∃ v ∈ requestVisits dev vq ramSize mem descHead, v.fails dev vq ramSize = true) ↔
        ∃ v ∈ blkVisits dev vq ramSize n w, v.fails dev vq ramSize = true) := by
  have hdata : ¬ (BlkWalk.start mem descHead).isData vq ramSize = true := fun h => (isData_iff.1 h).1 rfl
  unfold requestSegments requestVisits virtioBlkRequest
  cases vq.num.toNat with
  | zero => exact .inl rfl
  | succ n =>
    rw [blkVisits, virtioBlkWalk, List.filter_cons_of_neg hdata]
    by_cases hgo : (virtioBlkDesc dev vq ramSize (.start mem descHead)).2 = true
    · obtain ⟨hr, hhdr⟩ := virtioBlkDesc_started dev vq ramSize hgo
      have hstart : ¬ (BlkWalk.start mem descHead).fails dev vq ramSize = true := by
        rw [fails_iff, hr]
        rintro (h | ⟨h, -⟩)
        · cases h
        · exact hdata h
      have hphase : (virtioBlkDesc dev vq ramSize (.start mem descHead)).1.phase ≠ 0 := by
        rw [hhdr]
        exact Nat.one_ne_zero
      rw [if_pos hgo, if_pos hgo]
      by_cases hio : (virtioBlkDesc dev vq ramSize (.start mem descHead)).1.hdr.isIo
      · refine .inr ⟨n, _, hphase, hio, ?_, ?_, rfl, rfl, ?_⟩
        · rw [hhdr]
          rfl
        · rw [hhdr]
          rfl
        · simp only [List.mem_cons, exists_eq_or_imp]
          exact or_iff_right hstart
      · exact .inl (segmentsFrom_other n _ hphase hio)
    · rw [if_neg hgo]
      exact .inl rfl

/-! ## The bytes a request reaches -/

section Confined

variable (mem : BlkMem) (descHead : U16)

/-- What a request may reach of the disk. -/
structure DiskConfined : Prop where
  access : ∀ j w, (requestSegments dev vq ramSize mem descHead)[j]? = some w → ∀ b : U64, w.Touches dev vq ramSize b →
    b.toNat < dev.disk_size.toNat ∧
      designatedStart vq ramSize (requestSector vq ramSize mem descHead) (requestSegments dev vq ramSize mem descHead) j ≤
        b.toNat ∧
      b.toNat < designatedStart vq ramSize (requestSector vq ramSize mem descHead)
        (requestSegments dev vq ramSize mem descHead) j + w.len vq ramSize
  outside : ∀ j w, (requestSegments dev vq ramSize mem descHead)[j]? = some w → 0 < w.len vq ramSize →
    dev.disk_size.toNat < designatedStart vq ramSize (requestSector vq ramSize mem descHead)
      (requestSegments dev vq ramSize mem descHead) j + w.len vq ramSize →
    (virtioBlkRequest dev vq ramSize mem descHead).status ≠ virtioBlkSOk

/-- A segment that is copied ends, in unbounded integers, below 2^64, and only whole sectors come before it; one that
is taken for the status byte is on the disk, or something else fails the request. -/
structure SectorsExact : Prop where
  copied : ∀ j w, (requestSegments dev vq ramSize mem descHead)[j]? = some w → w.copies dev vq ramSize = true →
    0 < w.len vq ramSize →
    designatedStart vq ramSize (requestSector vq ramSize mem descHead) (requestSegments dev vq ramSize mem descHead) j +
      w.len vq ramSize < 2 ^ 64 ∧
    ∀ v ∈ (requestSegments dev vq ramSize mem descHead).take j, v.len vq ramSize % 512 = 0
  skipped : ∀ j w, (requestSegments dev vq ramSize mem descHead)[j]? = some w → w.skips vq ramSize = true →
    designatedStart vq ramSize (requestSector vq ramSize mem descHead) (requestSegments dev vq ramSize mem descHead) j <
      dev.disk_size.toNat ∨
    ∃ v ∈ requestVisits dev vq ramSize mem descHead, v.fails dev vq ramSize = true

end Confined

/-- What is left of whole sectors. -/
theorem sum_eq_sectors : ∀ l : List Nat, l.sum = 512 * (l.map (· / 512)).sum + (l.map (· % 512)).sum
  | [] => rfl
  | n :: l => by
    have ih := sum_eq_sectors l
    rw [List.map_cons, List.map_cons, List.sum_cons, List.sum_cons, List.sum_cons]
    omega

section Exact

variable {dev vq ramSize} {s0 : U64} {segs : List BlkWalk}

theorem designatedStart_eq (j : Nat) : designatedStart vq ramSize s0 segs j =
    512 * (s0.toNat + segmentSectors vq ramSize (segs.take j)) +
      ((segs.take j).map fun v => v.len vq ramSize % 512).sum := by
  have hsum := sum_eq_sectors ((segs.take j).map (BlkWalk.len vq ramSize))
  rw [List.map_map, List.map_map] at hsum
  show 512 * s0.toNat + ((segs.take j).map (BlkWalk.len vq ramSize)).sum =
    512 * (s0.toNat + ((segs.take j).map ((· / 512) ∘ BlkWalk.len vq ramSize)).sum) +
      ((segs.take j).map ((· % 512) ∘ BlkWalk.len vq ramSize)).sum
  omega

theorem rest_eq_zero : ∀ segs : List BlkWalk, (segs.map fun v => v.len vq ramSize % 512).sum = 0 ↔
    ∀ v ∈ segs, v.len vq ramSize % 512 = 0
  | [] => by simp
  | v :: segs => by
    rw [List.map_cons, List.sum_cons, List.forall_mem_cons, ← rest_eq_zero segs, Nat.add_eq_zero_iff]

/-- A segment starts where the whole sectors before it lead. -/
structure StartsAt (vq : VirtioQueue) (ramSize s0 : U64) (segs : List BlkWalk) (j : Nat) (v : BlkWalk) : Prop where
  data : v.isData vq ramSize = true
  sector : v.hdr.sector = s0 + BitVec.ofNat 64 (segmentSectors vq ramSize (segs.take j))

variable {j : Nat} {v : BlkWalk}

/-- **A segment that is copied stays on its designated bytes of the disk** exactly when it is exact. -/
theorem StartsAt.touches_iff (h : StartsAt vq ramSize s0 segs j v) (hcopies : v.copies dev vq ramSize = true)
    (hl : 0 < v.len vq ramSize) :
    (∀ b : U64, v.Touches dev vq ramSize b → b.toNat < dev.disk_size.toNat ∧
      designatedStart vq ramSize s0 segs j ≤ b.toNat ∧ b.toNat < designatedStart vq ramSize s0 segs j + v.len vq ramSize) ↔
    designatedStart vq ramSize s0 segs j + v.len vq ramSize < 2 ^ 64 ∧
      ∀ u ∈ segs.take j, u.len vq ramSize % 512 = 0 := by
  have hoff := (v.segment (v.desc vq ramSize)).diskOffset_toNat s0 _ h.sector
  have hend := (v.segment (v.desc vq ramSize)).passes_end ramSize dev.disk_size (copies_iff.1 hcopies).2
  have hlen : v.len vq ramSize < 2 ^ 32 := (v.desc vq ramSize).len.isLt
  rw [← rest_eq_zero, designatedStart_eq, ← offset_exact_iff _ _ _ _ _ hoff hl hlen dev.disk_size.isLt hend]
  have hnat : ∀ i < v.len vq ramSize, (v.hdr.sector * 512 + BitVec.ofNat 64 i).toNat =
      ((v.segment (v.desc vq ramSize)).diskOffset.toNat + i) % 2 ^ 64 := by
    intro i hi
    rw [BitVec.toNat_add, BitVec.toNat_ofNat, Nat.add_mod_mod]
    rfl
  constructor
  · intro hall i hi
    rw [← hnat i hi]
    exact hall _ ⟨h.data, hcopies, i, hi, rfl⟩
  · rintro hall b ⟨-, -, i, hi, rfl⟩
    rw [hnat i hi]
    exact hall i hi

/-- **An exact segment that passes designates no byte past the disk.** -/
theorem StartsAt.end_le (h : StartsAt vq ramSize s0 segs j v) (hpasses : v.passes dev vq ramSize = true)
    (he : designatedStart vq ramSize s0 segs j + v.len vq ramSize < 2 ^ 64 ∧
      ∀ u ∈ segs.take j, u.len vq ramSize % 512 = 0) :
    designatedStart vq ramSize s0 segs j + v.len vq ramSize ≤ dev.disk_size.toNat := by
  have hoff := (v.segment (v.desc vq ramSize)).diskOffset_toNat s0 _ h.sector
  have hend : ((v.segment (v.desc vq ramSize)).diskOffset.toNat + v.len vq ramSize) % 2 ^ 64 ≤ dev.disk_size.toNat :=
    (v.segment (v.desc vq ramSize)).passes_end ramSize dev.disk_size hpasses
  rw [← rest_eq_zero, designatedStart_eq] at he
  rw [designatedStart_eq]
  omega

theorem skips_len (h : v.skips vq ramSize = true) : v.len vq ramSize = 1 := by
  unfold BlkWalk.skips at h
  rw [Bool.and_eq_true, decide_eq_true_eq] at h
  exact congrArg BitVec.toNat h.2

end Exact

/-- Guest RAM with one request in queue memory at its start: header, 512 data bytes, status, then the two rings. -/
def blkChain (type sector : U64) : Mem :=
  let desc (m : Mem) (i addr len flags next : U64) : Mem :=
    (((m.write (16 * i) 8 addr).write (16 * i + 8) 4 len).write (16 * i + 12) 2 flags).write (16 * i + 14) 2 next
  let m := desc (fun _ => 0) 0 0x80000100 16 1 1
  let m := desc (desc m 1 0x80000200 512 1 2) 2 0x80000400 1 2 0
  ((m.write 0x100 4 type).write 0x108 8 sector).write 0x802 2 1

end PgLinux
