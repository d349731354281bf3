import PgLinux.Virtio
/-!
# Blocks — the rows of `vm_blocks` and their flush (`rv64_pgext.c`)

The worker writes dirty blocks to the table after a STEP, at most 256 a call, always under `vm_id = 1`.
-/
namespace PgLinux

/-- The `data` of a row: `blen` bytes. -/
structure BlockRow where
  data : Mem
  blen : U64

/-- `vm_blocks`, by `vm_id` and `blk_idx`. -/
abbrev VmBlocks := U64 → U64 → Option BlockRow

def VmBlocks.upsert (rows : VmBlocks) (vmId blk : U64) (r : BlockRow) : VmBlocks := fun i b =>
  if i = vmId ∧ b = blk then some r else rows i b

/-- `(vm_disk_size + DISK_BLOCK_SIZE - 1) / DISK_BLOCK_SIZE`. -/
def nblocks (diskSize : U64) : U64 := (diskSize + diskBlockSize - 1) / diskBlockSize

/-- The bytes of block `b`, cut at the end of the disk. -/
def flushRow (disk : Mem) (diskSize b : U64) : BlockRow :=
  let off := b * diskBlockSize
  ⟨fun i => disk (off + i), if diskSize < off + diskBlockSize then diskSize - off else diskBlockSize⟩

def dirtyClear (bits : U64 → Bool) (b : U64) : U64 → Bool := fun k => if k = b then false else bits k

/-- The `for` over the blocks, from `b` with `n` to go. -/
def flushLoop (disk : Mem) (diskSize : U64) :
    Nat → U64 → Nat → (U64 → Bool) → VmBlocks → (U64 → Bool) × VmBlocks
  | 0, _, _, bits, rows => (bits, rows)
  | n + 1, b, flushed, bits, rows =>
    if bits b then
      let bits' := dirtyClear bits b
      let rows' := rows.upsert 1 b (flushRow disk diskSize b)
      if 256 ≤ flushed + 1 then (bits', rows') else flushLoop disk diskSize n (b + 1) (flushed + 1) bits' rows'
    else flushLoop disk diskSize n (b + 1) flushed bits rows

def workerFlushDirtyBlocks (disk : Mem) (diskSize : U64) (dirty : Option (U64 → Bool)) (rows : VmBlocks) :
    Option (U64 → Bool) × VmBlocks :=
  match dirty with
  | none => (none, rows)
  | some bits =>
    if diskSize = 0 then (some bits, rows)
    else
      let r := flushLoop disk diskSize (nblocks diskSize).toNat 0 0 bits rows
      (some r.1, r.2)

/-- The rows of one VM copied over the disk image at BOOT, from `b` with `n` to go; a row past the last block fails the
bound check. -/
def overlayLoop (rows : U64 → Option BlockRow) (diskSize : U64) : Nat → U64 → Mem → Mem
  | 0, _, disk => disk
  | n + 1, b, disk =>
    match rows b with
    | some r =>
      let off := b * diskBlockSize
      overlayLoop rows diskSize n (b + 1) (if off + r.blen ≤ diskSize then disk.copy off r.data 0 r.blen.toNat else disk)
    | none => overlayLoop rows diskSize n (b + 1) disk

def overlayBlocks (rows : U64 → Option BlockRow) (diskSize : U64) (disk : Mem) : Mem :=
  overlayLoop rows diskSize (nblocks diskSize).toNat 0 disk

/-! ## What a flush does to a block -/

/-- A flush leaves a block alone, or clears its bit and writes its present bytes to the row of `vm_id` 1. -/
def FlushedBlock (disk : Mem) (diskSize : U64) (bits bits' : U64 → Bool) (rows rows' : VmBlocks) (k : U64) : Prop :=
  (bits' k = bits k ∧ rows' 1 k = rows 1 k) ∨
  (bits k = true ∧ bits' k = false ∧ rows' 1 k = some (flushRow disk diskSize k))

theorem VmBlocks.upsert_same (rows : VmBlocks) (vmId blk : U64) (r : BlockRow) : rows.upsert vmId blk r vmId blk = some r :=
  if_pos ⟨rfl, rfl⟩

theorem VmBlocks.upsert_ne (rows : VmBlocks) (vmId blk i b : U64) (r : BlockRow) (h : ¬ (i = vmId ∧ b = blk)) :
    rows.upsert vmId blk r i b = rows i b := if_neg h

theorem flushStep_block (disk : Mem) (diskSize b : U64) (bits : U64 → Bool) (rows : VmBlocks) (hb : bits b = true) (k : U64) :
    FlushedBlock disk diskSize bits (dirtyClear bits b) rows (rows.upsert 1 b (flushRow disk diskSize b)) k := by
  by_cases hk : k = b
  · subst hk
    exact .inr ⟨hb, if_pos rfl, rows.upsert_same _ _ _⟩
  · exact .inl ⟨if_neg hk, rows.upsert_ne _ _ _ _ _ fun h => hk h.2⟩

theorem FlushedBlock.trans {disk : Mem} {diskSize : U64} {bits bits' bits'' : U64 → Bool} {rows rows' rows'' : VmBlocks}
    {k : U64} (h : FlushedBlock disk diskSize bits bits' rows rows' k)
    (h' : FlushedBlock disk diskSize bits' bits'' rows' rows'' k) :
    FlushedBlock disk diskSize bits bits'' rows rows'' k := by
  rcases h with ⟨h1, h2⟩ | ⟨h1, h2, h3⟩ <;> rcases h' with ⟨g1, g2⟩ | ⟨g1, g2, g3⟩
  · exact .inl ⟨by rw [g1, h1], by rw [g2, h2]⟩
  · exact .inr ⟨by rw [← h1, g1], g2, g3⟩
  · exact .inr ⟨h1, by rw [g1, h2], by rw [g2, h3]⟩
  · rw [h2] at g1
    cases g1

/-- **The flush loop leaves each block alone or persists it.** -/
theorem flushLoop_block (disk : Mem) (diskSize : U64) (k : U64) :
    ∀ (n : Nat) (b : U64) (flushed : Nat) (bits : U64 → Bool) (rows : VmBlocks),
      FlushedBlock disk diskSize bits (flushLoop disk diskSize n b flushed bits rows).1 rows
        (flushLoop disk diskSize n b flushed bits rows).2 k
  | 0, _, _, _, _ => .inl ⟨rfl, rfl⟩
  | n + 1, b, flushed, bits, rows => by
    unfold flushLoop
    by_cases hb : bits b = true
    · rw [if_pos hb]
      dsimp only
      split
      · exact flushStep_block disk diskSize b bits rows hb k
      · exact (flushStep_block disk diskSize b bits rows hb k).trans (flushLoop_block disk diskSize k n _ _ _ _)
    · rw [if_neg hb]
      exact flushLoop_block disk diskSize k n _ _ _ _

/-- **A flush leaves each block alone or persists it.** -/
theorem workerFlushDirtyBlocks_block (disk : Mem) (diskSize : U64) (bits : U64 → Bool) (rows : VmBlocks) :
    ∃ bits', (workerFlushDirtyBlocks disk diskSize (some bits) rows).1 = some bits' ∧ ∀ k,
      FlushedBlock disk diskSize bits bits' rows (workerFlushDirtyBlocks disk diskSize (some bits) rows).2 k := by
  unfold workerFlushDirtyBlocks
  dsimp only
  split
  · exact ⟨bits, rfl, fun k => .inl ⟨rfl, rfl⟩⟩
  · exact ⟨_, rfl, fun k => flushLoop_block disk diskSize k _ _ _ _ _⟩

theorem flushLoop_clear (disk : Mem) (diskSize : U64) : ∀ (n : Nat) (b : U64) (flushed : Nat) (bits : U64 → Bool)
    (rows : VmBlocks), (∀ i, i < n → bits (b + BitVec.ofNat 64 i) = false) →
      flushLoop disk diskSize n b flushed bits rows = (bits, rows)
  | 0, _, _, _, _, _ => rfl
  | n + 1, b, flushed, bits, rows, h => by
    have hb : bits b = false := by simpa using h 0 (Nat.succ_pos n)
    unfold flushLoop
    rw [hb, if_neg Bool.false_ne_true]
    refine flushLoop_clear disk diskSize n (b + 1) flushed bits rows fun i hi => ?_
    have hnext : b + 1 + BitVec.ofNat 64 i = b + BitVec.ofNat 64 (i + 1) := by
      rw [BitVec.add_assoc, Nat.add_comm i 1, BitVec.ofNat_add]
      rfl
    rw [hnext]
    exact h (i + 1) (Nat.succ_lt_succ hi)

/-- A flush with no bit set in the range of the disk does nothing. -/
theorem workerFlushDirtyBlocks_clear (disk : Mem) (diskSize : U64) (dirty : Option (U64 → Bool)) (rows : VmBlocks)
    (h : ∀ bits k, dirty = some bits → k < nblocks diskSize → bits k = false) :
    workerFlushDirtyBlocks disk diskSize dirty rows = (dirty, rows) := by
  unfold workerFlushDirtyBlocks
  cases dirty with
  | none => rfl
  | some bits =>
    dsimp only
    split
    · rfl
    · rw [flushLoop_clear disk diskSize _ 0 0 bits rows fun i hi => ?_]
      have hlt := (nblocks diskSize).isLt
      have hsum : (0 : U64) + BitVec.ofNat 64 i = BitVec.ofNat 64 i := BitVec.zero_add _
      refine h bits _ rfl (BitVec.lt_def.2 ?_)
      rw [hsum, BitVec.toNat_ofNat, Nat.mod_eq_of_lt (by omega)]
      exact hi

theorem flushLoop_other (disk : Mem) (diskSize : U64) {i : U64} (hi : i ≠ 1) (k : U64) :
    ∀ (n : Nat) (b : U64) (flushed : Nat) (bits : U64 → Bool) (rows : VmBlocks),
      (flushLoop disk diskSize n b flushed bits rows).2 i k = rows i k
  | 0, _, _, _, _ => rfl
  | n + 1, b, flushed, bits, rows => by
    have hup : rows.upsert 1 b (flushRow disk diskSize b) i k = rows i k := rows.upsert_ne _ _ _ _ _ fun h => hi h.1
    unfold flushLoop
    by_cases hb : bits b = true
    · rw [if_pos hb]
      dsimp only
      split
      · exact hup
      · exact (flushLoop_other disk diskSize hi k n _ _ _ _).trans hup
    · rw [if_neg hb]
      exact flushLoop_other disk diskSize hi k n _ _ _ _

/-- **A flush writes rows of `vm_id` 1 only.** -/
theorem workerFlushDirtyBlocks_other (disk : Mem) (diskSize : U64) (dirty : Option (U64 → Bool)) (rows : VmBlocks)
    {i : U64} (hi : i ≠ 1) (k : U64) : (workerFlushDirtyBlocks disk diskSize dirty rows).2 i k = rows i k := by
  unfold workerFlushDirtyBlocks
  split
  · rfl
  · split
    · rfl
    · exact flushLoop_other disk diskSize hi k _ _ _ _ _

/-! ## What the overlay at BOOT leaves -/

/-- The rows have the lengths the flush gives them. -/
def RowsSized (diskSize : U64) (rows : U64 → Option BlockRow) : Prop :=
  ∀ k r, rows k = some r → r.blen = (flushRow (fun _ => 0) diskSize k).blen

/-- Byte `a` of the disk as the rows and the image give it. -/
def overlayByte (rows : U64 → Option BlockRow) (image : Mem) (a : U64) : U8 :=
  match rows (a / diskBlockSize) with
  | some r => r.data (a - a / diskBlockSize * diskBlockSize)
  | none => image a

theorem nblocks_toNat {diskSize : U64} (h : diskSize.toNat < 2 ^ 63) :
    (nblocks diskSize).toNat = (diskSize.toNat + 4095) / 4096 := by
  have hbs : diskBlockSize.toNat = 4096 := rfl
  have hone : (1 : U64).toNat = 1 := rfl
  unfold nblocks
  rw [BitVec.toNat_udiv, BitVec.toNat_sub, BitVec.toNat_add, hbs, hone]
  omega

theorem blockStart_toNat {b : U64} (h : b.toNat < 2 ^ 52) : (b * diskBlockSize).toNat = 4096 * b.toNat := by
  have hbs : diskBlockSize.toNat = 4096 := rfl
  rw [BitVec.toNat_mul, hbs]
  omega

theorem flushRow_blen {diskSize b : U64} (disk : Mem) (hd : diskSize.toNat < 2 ^ 63)
    (hb : b.toNat < (nblocks diskSize).toNat) :
    (flushRow disk diskSize b).blen.toNat = min 4096 (diskSize.toNat - 4096 * b.toNat) := by
  have hbs : diskBlockSize.toNat = 4096 := rfl
  rw [nblocks_toNat hd] at hb
  have hstart : (b * diskBlockSize).toNat = 4096 * b.toNat := blockStart_toNat (by omega)
  unfold flushRow
  dsimp only
  split
  next h =>
    rw [BitVec.lt_def, BitVec.toNat_add, hstart, hbs] at h
    rw [BitVec.toNat_sub, hstart]
    omega
  next h =>
    rw [BitVec.lt_def, BitVec.toNat_add, hstart, hbs] at h
    omega

/-- The row of block `b` replaces exactly the bytes of that block. -/
theorem copyRow_byte {diskSize b a : U64} {r : BlockRow} (hd : diskSize.toNat < 2 ^ 63)
    (hb : b.toNat < (nblocks diskSize).toNat) (hr : r.blen = (flushRow (fun _ => 0) diskSize b).blen)
    (ha : a.toNat < diskSize.toNat) (disk : Mem) :
    (if b * diskBlockSize + r.blen ≤ diskSize then disk.copy (b * diskBlockSize) r.data 0 r.blen.toNat else disk) a =
      if a / diskBlockSize = b then r.data (a - b * diskBlockSize) else disk a := by
  have hbs : diskBlockSize.toNat = 4096 := rfl
  have hlen := flushRow_blen (fun _ => 0) hd hb
  rw [← hr] at hlen
  rw [nblocks_toNat hd] at hb
  have hstart : (b * diskBlockSize).toNat = 4096 * b.toNat := blockStart_toNat (by omega)
  have hfits : b * diskBlockSize + r.blen ≤ diskSize := by
    rw [BitVec.le_def, BitVec.toNat_add, hstart]
    omega
  rw [if_pos hfits]
  by_cases hab : a / diskBlockSize = b
  · have hq : a.toNat / 4096 = b.toNat := by rw [← hab, BitVec.toNat_udiv, hbs]
    have hlt : (a - b * diskBlockSize).toNat < r.blen.toNat := by
      rw [BitVec.toNat_sub, hstart]
      omega
    rw [if_pos hab, Mem.copy_of_lt _ _ _ _ _ _ hlt]
    exact congrArg r.data (BitVec.zero_add _)
  · have hq : a.toNat / 4096 ≠ b.toNat := fun h =>
      hab (BitVec.eq_of_toNat_eq (by rw [BitVec.toNat_udiv, hbs]; exact h))
    have hle : r.blen.toNat ≤ (a - b * diskBlockSize).toNat := by
      rw [BitVec.toNat_sub, hstart]
      omega
    rw [if_neg hab, Mem.copy_of_le _ _ _ _ _ _ hle]

/-- **The loop gives each byte of its blocks what its row and the image say.** -/
theorem overlayLoop_byte {rows : U64 → Option BlockRow} {diskSize a : U64} (hd : diskSize.toNat < 2 ^ 63)
    (hrows : RowsSized diskSize rows) (ha : a.toNat < diskSize.toNat) :
    ∀ (n : Nat) (b : U64) (disk : Mem), b.toNat + n ≤ (nblocks diskSize).toNat →
      overlayLoop rows diskSize n b disk a =
        if b.toNat ≤ (a / diskBlockSize).toNat ∧ (a / diskBlockSize).toNat < b.toNat + n then overlayByte rows disk a
        else disk a
  | 0, b, disk, _ => by
    rw [if_neg (by omega)]
    rfl
  | n + 1, b, disk, hn => by
    have hnb := nblocks_toNat hd
    have hsucc : (b + 1).toNat = b.toNat + 1 := by
      rw [BitVec.toNat_add]
      have : (1 : U64).toNat = 1 := rfl
      omega
    have hiff : a / diskBlockSize = b ↔ (a / diskBlockSize).toNat = b.toNat :=
      ⟨fun h => congrArg BitVec.toNat h, BitVec.eq_of_toNat_eq⟩
    unfold overlayLoop
    cases hb : rows b with
    | none =>
      dsimp only
      rw [overlayLoop_byte hd hrows ha n (b + 1) disk (by omega), hsucc]
      by_cases hab : a / diskBlockSize = b
      · have hbyte : overlayByte rows disk a = disk a := by
          unfold overlayByte
          rw [hab, hb]
        rw [hbyte, ite_self, ite_self]
      · have := mt hiff.2 hab
        exact if_congr (by omega) rfl rfl
    | some r =>
      dsimp only
      rw [overlayLoop_byte hd hrows ha n (b + 1) _ (by omega), hsucc]
      have hcopy := copyRow_byte hd (b := b) (by omega) (hrows b r hb) ha disk
      generalize (if b * diskBlockSize + r.blen ≤ diskSize
        then disk.copy (b * diskBlockSize) r.data 0 r.blen.toNat else disk) = disk' at hcopy ⊢
      by_cases hab : a / diskBlockSize = b
      · have := hiff.1 hab
        rw [if_neg (by omega), if_pos (by omega), hcopy, if_pos hab]
        unfold overlayByte
        rw [hab, hb]
      · have := mt hiff.2 hab
        rw [if_neg hab] at hcopy
        have hbyte : overlayByte rows disk' a = overlayByte rows disk a := by
          unfold overlayByte
          rw [hcopy]
        rw [hcopy, hbyte]
        exact if_congr (by omega) rfl rfl

/-- **The disk after the overlay**: each byte is its row's, or the image's where the block has no row. -/
theorem overlayBlocks_byte {rows : U64 → Option BlockRow} {diskSize a : U64} (hd : diskSize.toNat < 2 ^ 63)
    (hrows : RowsSized diskSize rows) (ha : a.toNat < diskSize.toNat) (image : Mem) :
    overlayBlocks rows diskSize image a = overlayByte rows image a := by
  have hbs : diskBlockSize.toNat = 4096 := rfl
  have hzero : (0 : U64).toNat = 0 := rfl
  have hnb := nblocks_toNat hd
  unfold overlayBlocks
  rw [overlayLoop_byte hd hrows ha _ 0 image (by omega), hzero, BitVec.toNat_udiv, hbs, if_pos (by omega)]

end PgLinux
