import PgLinux.Blocks
/-!
# FlushFailures — the two flushes of the dirty blocks when inserts fail (`rv64_pgext.c`)

An insert that fails returns a code that is not `SPI_OK_INSERT`, or raises an error, which rolls back the rows of the
whole flush.  `worker_flush_dirty_blocks` clears the bit of a block before its insert and reads no code;
`vm_disk_flush` clears it after the insert and on success only.
-/
namespace PgLinux

inductive InsertOutcome where
  | ok
  | refused
  | raised
deriving DecidableEq

/-- What the database does in a flush. -/
structure SpiRun where
  connect : Bool
  /-- `CREATE TABLE IF NOT EXISTS` raises no error. -/
  create : Bool
  insert : U64 → InsertOutcome

/-- How `vm_disk_flush` ends; `sqlError` is an error that a statement raised. -/
inductive FlushAnswer where
  | text (s : String)
  | elog (s : String)
  | sqlError
deriving DecidableEq

/-! ## The two flushes -/

section Flushes

variable (spi : SpiRun) (disk : Mem) (diskSize : U64)

/-- The `for` of `worker_flush_dirty_blocks`, from `b` with `n` to go: whether it raised, the bitmap and the rows. -/
def workerInsertLoop : Nat → U64 → Nat → (U64 → Bool) → VmBlocks → Bool × (U64 → Bool) × VmBlocks
  | 0, _, _, bits, rows => (false, bits, rows)
  | n + 1, b, flushed, bits, rows =>
    if bits b then
      let bits' := dirtyClear bits b
      if spi.insert b = .raised then (true, bits', rows)
      else
        let rows' := if spi.insert b = .ok then rows.upsert 1 b (flushRow disk diskSize b) else rows
        if 256 ≤ flushed + 1 then (false, bits', rows') else workerInsertLoop n (b + 1) (flushed + 1) bits' rows'
    else workerInsertLoop n (b + 1) flushed bits rows

/-- `worker_flush_dirty_blocks`: the bitmap and the rows. -/
def workerFlush (bits : U64 → Bool) (rows : VmBlocks) : (U64 → Bool) × VmBlocks :=
  if diskSize = 0 ∨ spi.connect = false then (bits, rows)
  else
    let r := workerInsertLoop spi disk diskSize (nblocks diskSize).toNat 0 0 bits rows
    (r.2.1, if r.1 then rows else r.2.2)

/-- The `for` of `vm_disk_flush`, with the number of blocks it counts. -/
def diskInsertLoop (id : U64) : Nat → U64 → Nat → (U64 → Bool) → VmBlocks → Option Nat × (U64 → Bool) × VmBlocks
  | 0, _, flushed, bits, rows => (some flushed, bits, rows)
  | n + 1, b, flushed, bits, rows =>
    if bits b then
      match spi.insert b with
      | .raised => (none, bits, rows)
      | .refused => diskInsertLoop id n (b + 1) (flushed + 1) bits rows
      | .ok =>
        diskInsertLoop id n (b + 1) (flushed + 1) (dirtyClear bits b) (rows.upsert id b (flushRow disk diskSize b))
    else diskInsertLoop id n (b + 1) flushed bits rows

/-- `vm_disk_flush` where there is a disk: its answer, the bitmap and the rows; `id` is `vm_shared_state->cpu.id`. -/
def vmDiskFlush (id : U64) (bits : U64 → Bool) (rows : VmBlocks) : FlushAnswer × (U64 → Bool) × VmBlocks :=
  if diskSize = 0 then (.text "no disk loaded", bits, rows)
  else if spi.connect = false then (.elog "vm_disk_flush: SPI_connect failed", bits, rows)
  else if spi.create = false then (.sqlError, bits, rows)
  else
    let r := diskInsertLoop spi disk diskSize id (nblocks diskSize).toNat 0 0 bits rows
    match r.1 with
    | some flushed => (.text ("flushed " ++ toString flushed ++ " dirty blocks to vm_blocks"), r.2.1, r.2.2)
    | none => (.sqlError, r.2.1, rows)

end Flushes

/-! ## The blocks a flush reaches -/

/-- The blocks of the loop, from `b` with `n` to go. -/
def blocksFrom : Nat → U64 → List U64
  | 0, _ => []
  | n + 1, b => b :: blocksFrom n (b + 1)

/-- The blocks tried, up to the first insert that raises an error. -/
def reachedBlocks (insert : U64 → InsertOutcome) : List U64 → List U64
  | [] => []
  | k :: ks => k :: if insert k = .raised then [] else reachedBlocks insert ks

/-- The blocks that are dirty when the flush begins, in order. -/
def dirtyBlocks (diskSize : U64) (bits : U64 → Bool) : List U64 := (blocksFrom (nblocks diskSize).toNat 0).filter bits

theorem mem_blocksFrom {k : U64} : ∀ {n : Nat} {b : U64}, k ∈ blocksFrom n b ↔ ∃ i, i < n ∧ k = b + BitVec.ofNat 64 i
  | 0, _ => iff_of_false List.not_mem_nil fun ⟨_, h, _⟩ => Nat.not_lt_zero _ h
  | n + 1, b => by
    have hnext : ∀ i : Nat, b + 1 + BitVec.ofNat 64 i = b + BitVec.ofNat 64 (i + 1) := by
      intro i
      rw [BitVec.add_assoc, Nat.add_comm i 1, BitVec.ofNat_add]
      rfl
    unfold blocksFrom
    rw [List.mem_cons, mem_blocksFrom]
    constructor
    · rintro (rfl | ⟨i, hi, rfl⟩)
      · exact ⟨0, Nat.succ_pos n, (BitVec.add_zero k).symm⟩
      · exact ⟨i + 1, Nat.succ_lt_succ hi, hnext i⟩
    · rintro ⟨i, hi, rfl⟩
      cases i with
      | zero => exact .inl (BitVec.add_zero b)
      | succ i => exact .inr ⟨i, Nat.lt_of_succ_lt_succ hi, (hnext i).symm⟩

theorem not_mem_blocksFrom {n : Nat} (hn : n < 2 ^ 64) (b : U64) : b ∉ blocksFrom n (b + 1) := by
  rw [mem_blocksFrom]
  rintro ⟨i, hi, h⟩
  have hto := congrArg BitVec.toNat h
  have hone : (1 : U64).toNat = 1 := rfl
  rw [BitVec.toNat_add, BitVec.toNat_add, BitVec.toNat_ofNat, hone] at hto
  have hb := b.isLt
  omega

theorem mem_blocks_iff {diskSize k : U64} : k ∈ blocksFrom (nblocks diskSize).toNat 0 ↔ k < nblocks diskSize := by
  have hlt := (nblocks diskSize).isLt
  rw [mem_blocksFrom, BitVec.lt_def]
  constructor
  · rintro ⟨i, hi, rfl⟩
    rw [BitVec.toNat_add, BitVec.toNat_ofNat]
    have hzero : (0 : U64).toNat = 0 := rfl
    omega
  · intro h
    exact ⟨k.toNat, h, by rw [BitVec.ofNat_toNat, BitVec.setWidth_eq]; exact (BitVec.zero_add k).symm⟩

theorem mem_dirtyBlocks {diskSize k : U64} {bits : U64 → Bool} :
    k ∈ dirtyBlocks diskSize bits ↔ k < nblocks diskSize ∧ bits k = true := by
  unfold dirtyBlocks
  rw [List.mem_filter, mem_blocks_iff]

theorem filter_dirtyClear {n : Nat} (hn : n < 2 ^ 64) (b : U64) (bits : U64 → Bool) :
    (blocksFrom n (b + 1)).filter (dirtyClear bits b) = (blocksFrom n (b + 1)).filter bits := by
  refine List.filter_congr fun k hk => ?_
  have hne : k ≠ b := fun h => not_mem_blocksFrom hn b (h ▸ hk)
  exact if_neg hne

/-! ## What a flush leaves -/

section Closed

variable (insert : U64 → InsertOutcome) (disk : Mem) (diskSize id : U64) (p : List U64)

def anyRaised : Bool := p.any fun k => insert k = .raised

/-- The bits of the blocks of `p` that `clears` holds for are cleared. -/
def clearedBits (clears : U64 → Bool) (bits : U64 → Bool) : U64 → Bool := fun k => bits k && !(decide (k ∈ p) && clears k)

/-- The blocks of `p` whose insert succeeds have their present bytes in the rows. -/
def insertedRows (rows : VmBlocks) : VmBlocks := fun i k =>
  if i = id ∧ k ∈ p ∧ insert k = .ok then some (flushRow disk diskSize k) else rows i k

theorem clearedBits_nil (clears : U64 → Bool) (bits : U64 → Bool) : clearedBits [] clears bits = bits := by
  funext k
  exact Bool.and_true _

theorem insertedRows_nil (rows : VmBlocks) : insertedRows insert disk diskSize id [] rows = rows := by
  funext i k
  exact if_neg fun h => List.not_mem_nil h.2.1

variable {p} in
theorem clearedBits_of_clears {clears bits : U64 → Bool} {k : U64} (hk : k ∈ p) (hc : clears k = true) :
    clearedBits p clears bits k = false := by
  unfold clearedBits
  rw [decide_eq_true hk, hc]
  exact Bool.and_false _

variable {p} in
theorem clearedBits_of_not {clears bits : U64 → Bool} {k : U64} (h : ¬ (k ∈ p ∧ clears k = true)) :
    clearedBits p clears bits k = bits k := by
  have hand : (decide (k ∈ p) && clears k) = false := by
    rw [← Bool.not_eq_true, Bool.and_eq_true, decide_eq_true_iff]
    exact h
  unfold clearedBits
  rw [hand]
  exact Bool.and_true _

theorem clearedBits_cons (clears : U64 → Bool) (b : U64) (bits : U64 → Bool) :
    clearedBits p clears (if clears b then dirtyClear bits b else bits) = clearedBits (b :: p) clears bits := by
  funext k
  unfold clearedBits dirtyClear
  by_cases hb : k = b
  · subst hb
    cases hc : clears k <;> simp
  · cases clears b <;> simp [hb]

theorem insertedRows_cons (b : U64) (rows : VmBlocks) :
    insertedRows insert disk diskSize id p
        (if insert b = .ok then rows.upsert id b (flushRow disk diskSize b) else rows) =
      insertedRows insert disk diskSize id (b :: p) rows := by
  funext i k
  unfold insertedRows VmBlocks.upsert
  by_cases hb : k = b
  · subst hb
    by_cases hi : i = id <;> by_cases ho : insert k = .ok <;> by_cases hp : k ∈ p <;> simp [hi, ho, hp]
  · by_cases ho : insert b = .ok <;> simp [hb, ho]

theorem anyRaised_cons (b : U64) : anyRaised insert (b :: p) = (decide (insert b = .raised) || anyRaised insert p) := rfl

theorem reachedBlocks_go {b : U64} {l : List U64} (h : insert b ≠ .raised) :
    reachedBlocks insert (b :: l) = b :: reachedBlocks insert l := by
  show b :: (if insert b = .raised then [] else reachedBlocks insert l) = _
  rw [if_neg h]

theorem reachedBlocks_raised {b : U64} {l : List U64} (h : insert b = .raised) : reachedBlocks insert (b :: l) = [b] := by
  show b :: (if insert b = .raised then [] else reachedBlocks insert l) = _
  rw [if_pos h]

end Closed

/-- **The worker's loop clears the bit of every block it reaches, and writes the rows that are inserted.** -/
theorem workerInsertLoop_eq (spi : SpiRun) (disk : Mem) (diskSize : U64) : ∀ (n : Nat) (b : U64) (flushed : Nat)
    (bits : U64 → Bool) (rows : VmBlocks) (p : List U64), n < 2 ^ 64 → flushed < 256 →
    reachedBlocks spi.insert (((blocksFrom n b).filter bits).take (256 - flushed)) = p →
      workerInsertLoop spi disk diskSize n b flushed bits rows =
        (anyRaised spi.insert p, clearedBits p (fun _ => true) bits, insertedRows spi.insert disk diskSize 1 p rows)
  | 0, b, flushed, bits, rows, p, _, _, hp => by
    have hnil : p = [] := by
      rw [← hp, show blocksFrom 0 b = [] from rfl, List.filter_nil, List.take_nil]
      rfl
    rw [hnil, clearedBits_nil, insertedRows_nil]
    rfl
  | n + 1, b, flushed, bits, rows, p, hn, hf, hp => by
    unfold workerInsertLoop
    rw [show blocksFrom (n + 1) b = b :: blocksFrom n (b + 1) from rfl] at hp
    by_cases hb : bits b = true
    · rw [List.filter_cons_of_pos hb, show 256 - flushed = 255 - flushed + 1 by omega, List.take_succ_cons] at hp
      rw [if_pos hb]
      dsimp only
      by_cases hr : spi.insert b = .raised
      · have hok : spi.insert b ≠ .ok := by rw [hr]; decide
        rw [reachedBlocks_raised _ hr] at hp
        subst hp
        rw [if_pos hr, ← clearedBits_cons, ← insertedRows_cons, clearedBits_nil, insertedRows_nil, if_neg hok]
        rw [anyRaised_cons, if_pos rfl, decide_eq_true hr]
        rfl
      · rw [reachedBlocks_go _ hr] at hp
        subst hp
        rw [if_neg hr, ← clearedBits_cons, ← insertedRows_cons, anyRaised_cons, decide_eq_false hr, Bool.false_or]
        rw [if_pos (rfl : (fun _ : U64 => true) b = true)]
        by_cases hlimit : 256 ≤ flushed + 1
        · have hlast : 255 - flushed = 0 := by omega
          have hnil : reachedBlocks spi.insert [] = [] := rfl
          rw [if_pos hlimit, hlast, List.take_zero, hnil, clearedBits_nil, insertedRows_nil]
          rfl
        · rw [if_neg hlimit]
          refine workerInsertLoop_eq spi disk diskSize n _ _ _ _ _ (by omega) (by omega) ?_
          rw [filter_dirtyClear (by omega), show 256 - (flushed + 1) = 255 - flushed by omega]
    · rw [List.filter_cons_of_neg hb] at hp
      rw [if_neg hb]
      exact workerInsertLoop_eq spi disk diskSize n _ _ _ _ _ (by omega) hf hp

/-- **The loop of `vm_disk_flush` clears the bits of the blocks that are inserted.** -/
theorem diskInsertLoop_eq (spi : SpiRun) (disk : Mem) (diskSize id : U64) : ∀ (n : Nat) (b : U64) (flushed : Nat)
    (bits : U64 → Bool) (rows : VmBlocks) (p : List U64), n < 2 ^ 64 →
    reachedBlocks spi.insert ((blocksFrom n b).filter bits) = p →
      diskInsertLoop spi disk diskSize id n b flushed bits rows =
        (if anyRaised spi.insert p then none else some (flushed + p.length),
          clearedBits p (fun k => spi.insert k = .ok) bits, insertedRows spi.insert disk diskSize id p rows)
  | 0, b, flushed, bits, rows, p, _, hp => by
    have hnil : p = [] := by
      rw [← hp, show blocksFrom 0 b = [] from rfl, List.filter_nil]
      rfl
    rw [hnil, clearedBits_nil, insertedRows_nil]
    rfl
  | n + 1, b, flushed, bits, rows, p, hn, hp => by
    unfold diskInsertLoop
    rw [show blocksFrom (n + 1) b = b :: blocksFrom n (b + 1) from rfl] at hp
    by_cases hb : bits b = true
    · rw [List.filter_cons_of_pos hb] at hp
      rw [if_pos hb]
      cases hr : spi.insert b with
      | raised =>
        rw [reachedBlocks_raised _ hr] at hp
        subst hp
        rw [← clearedBits_cons, ← insertedRows_cons, clearedBits_nil, insertedRows_nil, hr, anyRaised_cons, hr]
        rfl
      | refused =>
        rw [reachedBlocks_go _ (by rw [hr]; decide)] at hp
        subst hp
        rw [← clearedBits_cons, ← insertedRows_cons, hr, anyRaised_cons, hr]
        dsimp only
        rw [diskInsertLoop_eq spi disk diskSize id n (b + 1) (flushed + 1) bits rows _ (by omega) rfl]
        rw [List.length_cons, Nat.add_assoc, Nat.add_comm 1]
        rfl
      | ok =>
        rw [reachedBlocks_go _ (by rw [hr]; decide)] at hp
        subst hp
        rw [← clearedBits_cons, ← insertedRows_cons, hr, anyRaised_cons, hr]
        dsimp only
        rw [diskInsertLoop_eq spi disk diskSize id n (b + 1) (flushed + 1) _ _ _ (by omega) rfl]
        rw [filter_dirtyClear (by omega)]
        rw [List.length_cons, Nat.add_assoc, Nat.add_comm 1]
        rfl
    · rw [List.filter_cons_of_neg hb] at hp
      rw [if_neg hb]
      exact diskInsertLoop_eq spi disk diskSize id n _ _ _ _ _ (by omega) hp

theorem reachedBlocks_cases (insert : U64 → InsertOutcome) : ∀ l : List U64,
    ((∀ k ∈ l, insert k ≠ .raised) ∧ reachedBlocks insert l = l) ∨
      ∃ pre r post, l = pre ++ r :: post ∧ insert r = .raised ∧ (∀ j ∈ pre, insert j ≠ .raised) ∧
        reachedBlocks insert l = pre ++ [r]
  | [] => .inl ⟨fun _ h => (List.not_mem_nil h).elim, rfl⟩
  | k :: l => by
    by_cases hk : insert k = .raised
    · exact .inr ⟨[], k, l, rfl, hk, fun _ h => (List.not_mem_nil h).elim, reachedBlocks_raised _ hk⟩
    · rw [reachedBlocks_go _ hk]
      rcases reachedBlocks_cases insert l with ⟨hl, heq⟩ | ⟨pre, r, post, rfl, hr, hpre, heq⟩
      · refine .inl ⟨fun j hj => ?_, by rw [heq]⟩
        rcases List.mem_cons.1 hj with rfl | hj
        · exact hk
        · exact hl j hj
      · refine .inr ⟨k :: pre, r, post, rfl, hr, fun j hj => ?_, by rw [heq]; rfl⟩
        rcases List.mem_cons.1 hj with rfl | hj
        · exact hk
        · exact hpre j hj

theorem reachedBlocks_of_raised {insert : U64 → InsertOutcome} {r : U64} {post : List U64} (hr : insert r = .raised) :
    ∀ {l pre : List U64}, l = pre ++ r :: post → (∀ j ∈ pre, insert j ≠ .raised) → reachedBlocks insert l = pre ++ [r]
  | _, [], rfl, _ => reachedBlocks_raised _ hr
  | _, k :: pre, rfl, h => by
    rw [List.cons_append, reachedBlocks_go _ (h k List.mem_cons_self)]
    rw [reachedBlocks_of_raised hr rfl fun j hj => h j (List.mem_cons_of_mem _ hj)]
    rfl

theorem anyRaised_eq_true {insert : U64 → InsertOutcome} {p : List U64} :
    anyRaised insert p = true ↔ ∃ k ∈ p, insert k = .raised := by
  unfold anyRaised
  rw [List.any_eq_true]
  exact exists_congr fun k => and_congr_right fun _ => decide_eq_true_iff

theorem not_anyRaised {insert : U64 → InsertOutcome} {p : List U64} (h : ∀ k ∈ p, insert k ≠ .raised) :
    anyRaised insert p ≠ true := by
  intro hr
  obtain ⟨k, hk, hkr⟩ := anyRaised_eq_true.1 hr
  exact h k hk hkr

theorem anyRaised_concat {insert : U64 → InsertOutcome} {r : U64} (hr : insert r = .raised) (pre : List U64) :
    anyRaised insert (pre ++ [r]) = true :=
  anyRaised_eq_true.2 ⟨r, List.mem_append_right _ List.mem_cons_self, hr⟩

theorem reachedBlocks_of_not_raised {insert : U64 → InsertOutcome} {l : List U64} (h : ∀ k ∈ l, insert k ≠ .raised) :
    reachedBlocks insert l = l := by
  rcases reachedBlocks_cases insert l with ⟨-, heq⟩ | ⟨pre, r, post, rfl, hr, -, -⟩
  · exact heq
  · exact absurd hr (h r (List.mem_append_right _ List.mem_cons_self))

/-! ## What is asked of a flush -/

/-- A byte of block `k` is not the one the next BOOT reads. -/
def Stale (image disk : Mem) (diskSize : U64) (rows : U64 → Option BlockRow) (k : U64) : Prop :=
  ∃ a, a < diskSize ∧ a / diskBlockSize = k ∧ overlayByte rows image a ≠ disk a

/-- Whatever is on the disk and in the rows, a flush that begins with every stale block dirty clears a bit only where
the insert succeeds, and ends with every stale block dirty. -/
def KeepsStale (diskSize id : U64) (insert : U64 → InsertOutcome) (bits : U64 → Bool)
    (flush : Mem → VmBlocks → (U64 → Bool) × VmBlocks) : Prop :=
  ∀ disk image rows, (∀ k, Stale image disk diskSize (rows id) k → bits k = true) →
    (∀ k, bits k = true → (flush disk rows).1 k = false → insert k = .ok) ∧
      ∀ k, Stale image disk diskSize ((flush disk rows).2 id) k → (flush disk rows).1 k = true

/-- No insert of the batch fails. -/
def BatchInserts (spi : SpiRun) (diskSize : U64) (bits : U64 → Bool) : Prop :=
  spi.connect = true → ∀ k ∈ (dirtyBlocks diskSize bits).take 256, spi.insert k = .ok

/-- The first insert that raises an error has none before it that succeeds. -/
def RaisesBeforeInserts (spi : SpiRun) (diskSize : U64) (bits : U64 → Bool) : Prop :=
  spi.connect = true → spi.create = true → ∀ pre r post, dirtyBlocks diskSize bits = pre ++ r :: post →
    spi.insert r = .raised → (∀ j ∈ pre, spi.insert j ≠ .raised) → ∀ j ∈ pre, spi.insert j ≠ .ok

section Stale

variable {image disk : Mem} {diskSize id k : U64} {insert : U64 → InsertOutcome} {p : List U64} {rows : VmBlocks}

/-- **A block that is stale after the inserts is not among those inserted, and was stale before.** -/
theorem stale_insertedRows (h : Stale image disk diskSize (insertedRows insert disk diskSize id p rows id) k) :
    ¬ (k ∈ p ∧ insert k = .ok) ∧ Stale image disk diskSize (rows id) k := by
  obtain ⟨a, ha, rfl, hne⟩ := h
  by_cases hin : a / diskBlockSize ∈ p ∧ insert (a / diskBlockSize) = .ok
  · refine absurd ?_ hne
    have hrow : insertedRows insert disk diskSize id p rows id (a / diskBlockSize) =
        some (flushRow disk diskSize (a / diskBlockSize)) := if_pos ⟨rfl, hin⟩
    unfold overlayByte
    rw [hrow]
    show disk (a / diskBlockSize * diskBlockSize + (a - a / diskBlockSize * diskBlockSize)) = disk a
    rw [BitVec.add_comm, BitVec.sub_add_cancel]
  · refine ⟨hin, a, ha, rfl, ?_⟩
    have hrow : insertedRows insert disk diskSize id p rows id (a / diskBlockSize) = rows id (a / diskBlockSize) :=
      if_neg fun h => hin h.2
    unfold overlayByte at hne ⊢
    rwa [hrow] at hne

/-- **A flush that clears the bits of inserted blocks only, and keeps its rows, is as asked.** -/
theorem keeps_of_clears {clears bits : U64 → Bool} (hc : ∀ k ∈ p, clears k = true → insert k = .ok)
    (hstale : ∀ k, Stale image disk diskSize (rows id) k → bits k = true) :
    (∀ k, bits k = true → clearedBits p clears bits k = false → insert k = .ok) ∧
      ∀ k, Stale image disk diskSize (insertedRows insert disk diskSize id p rows id) k →
        clearedBits p clears bits k = true := by
  constructor
  · intro k hb hk
    by_cases hin : k ∈ p ∧ clears k = true
    · exact hc k hin.1 hin.2
    · rw [clearedBits_of_not hin] at hk
      exact absurd (hb.symm.trans hk) (by decide)
  · intro k hk
    obtain ⟨hnot, hbefore⟩ := stale_insertedRows hk
    rw [clearedBits_of_not fun hin => hnot ⟨hin.1, hc k hin.1 hin.2⟩]
    exact hstale k hbefore

theorem block_start (hk : k < nblocks diskSize) :
    k * diskBlockSize < diskSize ∧ k * diskBlockSize / diskBlockSize = k := by
  have hbs : diskBlockSize.toNat = 4096 := rfl
  have hone : (1 : U64).toNat = 1 := rfl
  rw [BitVec.lt_def] at hk
  unfold nblocks at hk
  rw [BitVec.toNat_udiv, BitVec.toNat_sub, BitVec.toNat_add, hbs, hone] at hk
  have hd := diskSize.isLt
  have hat : (k * diskBlockSize).toNat = 4096 * k.toNat := blockStart_toNat (by omega)
  refine ⟨?_, BitVec.eq_of_toNat_eq ?_⟩
  · rw [BitVec.lt_def, hat]
    omega
  · rw [BitVec.toNat_udiv, hat, hbs]
    omega

/-- A disk whose dirty blocks are stale. -/
def dirtyDisk (bits : U64 → Bool) : Mem := fun a => if bits (a / diskBlockSize) then 1 else 0

theorem stale_dirtyDisk_iff (bits : U64 → Bool) :
    Stale (fun _ => 0) (dirtyDisk bits) diskSize (fun _ => none) k ↔
      (∃ a, a < diskSize ∧ a / diskBlockSize = k) ∧ bits k = true := by
  constructor
  · rintro ⟨a, ha, rfl, hne⟩
    refine ⟨⟨a, ha, rfl⟩, ?_⟩
    by_contra hb
    exact hne (if_neg hb).symm
  · rintro ⟨⟨a, ha, rfl⟩, hb⟩
    refine ⟨a, ha, rfl, fun heq => ?_⟩
    have hone : dirtyDisk bits a = 1 := if_pos hb
    have hzero : (0 : U8) = 1 := heq.trans hone
    exact absurd hzero (by decide)

end Stale

/-! ## The result -/

section Result

variable (spi : SpiRun) (diskSize id : U64) (bits : U64 → Bool)

theorem workerFlush_eq (disk : Mem) (rows : VmBlocks) {p : List U64} (hconnect : spi.connect = true)
    (hp : reachedBlocks spi.insert ((dirtyBlocks diskSize bits).take 256) = p) :
    workerFlush spi disk diskSize bits rows = (clearedBits p (fun _ => true) bits,
      if anyRaised spi.insert p then rows else insertedRows spi.insert disk diskSize 1 p rows) := by
  have hloop := workerInsertLoop_eq spi disk diskSize (nblocks diskSize).toNat 0 0 bits rows p (nblocks diskSize).isLt
    (by decide) hp
  unfold workerFlush
  by_cases hd : diskSize = 0
  · subst hd
    obtain rfl : [] = p := hp
    rw [if_pos (.inl rfl), clearedBits_nil, insertedRows_nil]
    rfl
  · rw [if_neg (not_or.2 ⟨hd, ne_false_of_eq_true hconnect⟩)]
    dsimp only
    rw [hloop]

theorem vmDiskFlush_eq (disk : Mem) (rows : VmBlocks) {p : List U64} (hconnect : spi.connect = true)
    (hcreate : spi.create = true) (hp : reachedBlocks spi.insert (dirtyBlocks diskSize bits) = p) :
    (vmDiskFlush spi disk diskSize id bits rows).2 = (clearedBits p (fun k => spi.insert k = .ok) bits,
      if anyRaised spi.insert p then rows else insertedRows spi.insert disk diskSize id p rows) := by
  have hloop := diskInsertLoop_eq spi disk diskSize id (nblocks diskSize).toNat 0 0 bits rows p (nblocks diskSize).isLt hp
  unfold vmDiskFlush
  by_cases hd : diskSize = 0
  · subst hd
    obtain rfl : [] = p := hp
    rw [if_pos rfl, clearedBits_nil, insertedRows_nil]
    rfl
  · rw [if_neg hd, if_neg (ne_false_of_eq_true hconnect), if_neg (ne_false_of_eq_true hcreate)]
    dsimp only
    rw [hloop]
    cases anyRaised spi.insert p <;> rfl

theorem keepsStale_same (insert : U64 → InsertOutcome) : KeepsStale diskSize id insert bits fun _ rows => (bits, rows) :=
  fun _ _ _ h => ⟨fun _ hk hk' => absurd (hk.symm.trans hk') (by decide), h⟩

theorem workerFlush_keeps_iff :
    (KeepsStale diskSize 1 spi.insert bits fun disk rows => workerFlush spi disk diskSize bits rows) ↔
      BatchInserts spi diskSize bits := by
  cases hconnect : spi.connect with
  | false =>
    have hsame : (fun disk rows => workerFlush spi disk diskSize bits rows) = fun _ rows => (bits, rows) := by
      funext disk rows
      exact if_pos (.inr hconnect)
    rw [hsame]
    exact iff_of_true (keepsStale_same diskSize 1 bits spi.insert) fun h => absurd (hconnect.symm.trans h) (by decide)
  | true =>
    have hmem : ∀ k ∈ (dirtyBlocks diskSize bits).take 256, bits k = true := fun k hk =>
      (mem_dirtyBlocks.1 (List.mem_of_mem_take hk)).2
    constructor
    · intro h _
      obtain ⟨hclear, -⟩ := h (dirtyDisk bits) (fun _ => 0) (fun _ _ => none) fun k hk =>
        ((stale_dirtyDisk_iff bits).1 hk).2
      simp only [workerFlush_eq spi diskSize bits _ _ hconnect rfl] at hclear
      have hreached : ∀ k ∈ reachedBlocks spi.insert ((dirtyBlocks diskSize bits).take 256), bits k = true →
          spi.insert k = .ok := fun k hk hb => hclear k hb (clearedBits_of_clears hk rfl)
      rcases reachedBlocks_cases spi.insert ((dirtyBlocks diskSize bits).take 256) with
        ⟨-, heq⟩ | ⟨pre, r, post, heq, hr, -, hreach⟩
      · exact fun k hk => hreached k (heq.symm ▸ hk) (hmem k hk)
      · have hin : r ∈ (dirtyBlocks diskSize bits).take 256 := by
          rw [heq]
          exact List.mem_append_right _ List.mem_cons_self
        have hok := hreached r (by rw [hreach]; exact List.mem_append_right _ List.mem_cons_self) (hmem r hin)
        exact absurd (hr.symm.trans hok) (by decide)
    · intro h disk image rows hstale
      have hall := h hconnect
      have hno : ∀ k ∈ (dirtyBlocks diskSize bits).take 256, spi.insert k ≠ .raised := by
        intro k hk
        rw [hall k hk]
        decide
      have hreach := reachedBlocks_of_not_raised hno
      dsimp only
      rw [workerFlush_eq spi diskSize bits disk rows hconnect hreach, if_neg (not_anyRaised hno)]
      exact keeps_of_clears (fun k hk _ => hall k hk) hstale

theorem vmDiskFlush_keeps_iff :
    (KeepsStale diskSize id spi.insert bits fun disk rows => (vmDiskFlush spi disk diskSize id bits rows).2) ↔
      RaisesBeforeInserts spi diskSize bits := by
  by_cases hgo : spi.connect = true ∧ spi.create = true
  · obtain ⟨hconnect, hcreate⟩ := hgo
    constructor
    · intro h _ _ pre r post heq hr hpre j hj hok
      obtain ⟨-, hstale⟩ := h (dirtyDisk bits) (fun _ => 0) (fun _ _ => none) fun k hk =>
        ((stale_dirtyDisk_iff bits).1 hk).2
      have hreach := reachedBlocks_of_raised hr heq hpre
      have hraised := anyRaised_concat hr pre
      simp only [vmDiskFlush_eq spi diskSize id bits _ _ hconnect hcreate hreach, if_pos hraised] at hstale
      have hdirty := mem_dirtyBlocks.1 (heq ▸ List.mem_append_left _ hj : j ∈ dirtyBlocks diskSize bits)
      have hstart := block_start hdirty.1
      have hbit := hstale j ((stale_dirtyDisk_iff bits).2 ⟨⟨_, hstart⟩, hdirty.2⟩)
      rw [clearedBits_of_clears (List.mem_append_left _ hj) (decide_eq_true hok)] at hbit
      exact absurd hbit (by decide)
    · intro h disk image rows hstale
      dsimp only
      rcases reachedBlocks_cases spi.insert (dirtyBlocks diskSize bits) with
        ⟨hno, hreach⟩ | ⟨pre, r, post, heq, hr, hpre, hreach⟩
      · rw [vmDiskFlush_eq spi diskSize id bits disk rows hconnect hcreate hreach, if_neg (not_anyRaised hno)]
        exact keeps_of_clears (fun k _ hok => of_decide_eq_true hok) hstale
      · have hsame : clearedBits (pre ++ [r]) (fun k => spi.insert k = .ok) bits = bits := by
          funext k
          refine clearedBits_of_not fun ⟨hk, hok⟩ => ?_
          rcases List.mem_append.1 hk with hk | hk
          · exact h hconnect hcreate pre r post heq hr hpre k hk (of_decide_eq_true hok)
          · obtain rfl := List.mem_singleton.1 hk
            exact absurd (hr.symm.trans (of_decide_eq_true hok)) (by decide)
        rw [vmDiskFlush_eq spi diskSize id bits disk rows hconnect hcreate hreach, if_pos (anyRaised_concat hr pre)]
        rw [hsame]
        exact keepsStale_same diskSize id bits spi.insert disk image rows hstale
  · have hsame : (fun disk rows => (vmDiskFlush spi disk diskSize id bits rows).2) = fun _ rows => (bits, rows) := by
      funext disk rows
      unfold vmDiskFlush
      cases hconnect : spi.connect with
      | false => split <;> rfl
      | true =>
        have hcreate : spi.create = false := eq_false_of_ne_true fun hcreate => hgo ⟨hconnect, hcreate⟩
        rw [hcreate]
        split <;> rfl
    rw [hsame]
    exact iff_of_true (keepsStale_same diskSize id bits spi.insert) fun hconnect hcreate => absurd ⟨hconnect, hcreate⟩ hgo

end Result

/-- **A flush keeps the stale blocks dirty exactly when the worker's batch has no failed insert, and `vm_disk_flush` none
that raises an error after one that succeeds.** -/
theorem flushes_keepStale_iff (spi : SpiRun) (diskSize id : U64) (bits : U64 → Bool) :
    ((KeepsStale diskSize 1 spi.insert bits fun disk rows => workerFlush spi disk diskSize bits rows) ∧
        KeepsStale diskSize id spi.insert bits fun disk rows => (vmDiskFlush spi disk diskSize id bits rows).2) ↔
      BatchInserts spi diskSize bits ∧ RaisesBeforeInserts spi diskSize bits :=
  and_congr (workerFlush_keeps_iff spi diskSize bits) (vmDiskFlush_keeps_iff spi diskSize id bits)

def refusingSpi : SpiRun := ⟨true, true, fun _ => .refused⟩

/-- The first insert succeeds, the second raises an error. -/
def raisingSpi : SpiRun := ⟨true, true, fun k => if k = 0 then .ok else .raised⟩

/-- Each of the two forgets a block: the worker one that is refused, `vm_disk_flush` one that is rolled back. -/
theorem not_keepsStale_twoBlocks :
    ¬ (KeepsStale 0x2000 1 refusingSpi.insert (fun _ => true) fun disk rows =>
      workerFlush refusingSpi disk 0x2000 (fun _ => true) rows) ∧
    ¬ KeepsStale 0x2000 1 raisingSpi.insert (fun _ => true) fun disk rows =>
      (vmDiskFlush raisingSpi disk 0x2000 1 (fun _ => true) rows).2 := by
  constructor
  · intro h
    have hbatch := (workerFlush_keeps_iff refusingSpi 0x2000 fun _ => true).1 h
    exact absurd (hbatch rfl 0 (by decide)) (by decide)
  · intro h
    have hfirst := (vmDiskFlush_keeps_iff raisingSpi 0x2000 1 fun _ => true).1 h
    have hblocks : dirtyBlocks 0x2000 (fun _ => true) = [0] ++ 1 :: [] := by decide +kernel
    have hraised : raisingSpi.insert 1 = .raised := by decide
    have hbefore : ∀ j ∈ [(0 : U64)], raisingSpi.insert j = .ok := by
      intro j hj
      exact if_pos (List.mem_singleton.1 hj)
    have hnot : ∀ j ∈ [(0 : U64)], raisingSpi.insert j ≠ .raised := by
      intro j hj
      rw [hbefore j hj]
      decide
    exact hfirst rfl rfl [0] 1 [] hblocks hraised hnot 0 List.mem_cons_self (hbefore 0 List.mem_cons_self)

/-! ## Where every insert succeeds -/

theorem workerInsertLoop_ok {spi : SpiRun} (hok : ∀ k, spi.insert k = .ok) (disk : Mem) (diskSize : U64) :
    ∀ (n : Nat) (b : U64) (flushed : Nat) (bits : U64 → Bool) (rows : VmBlocks),
      workerInsertLoop spi disk diskSize n b flushed bits rows = (false, flushLoop disk diskSize n b flushed bits rows)
  | 0, _, _, _, _ => rfl
  | n + 1, b, flushed, bits, rows => by
    have hr : spi.insert b ≠ .raised := by
      rw [hok b]
      decide
    unfold workerInsertLoop flushLoop
    by_cases hb : bits b = true
    · rw [if_pos hb, if_pos hb]
      dsimp only
      rw [if_neg hr, if_pos (hok b)]
      split
      · rfl
      · exact workerInsertLoop_ok hok disk diskSize n _ _ _ _
    · rw [if_neg hb, if_neg hb]
      exact workerInsertLoop_ok hok disk diskSize n _ _ _ _

/-- **Where every insert succeeds the flush is the one of `workerFlushDirtyBlocks`.** -/
theorem workerFlush_ok {spi : SpiRun} (hconnect : spi.connect = true) (hok : ∀ k, spi.insert k = .ok) (disk : Mem)
    (diskSize : U64) (bits : U64 → Bool) (rows : VmBlocks) : workerFlushDirtyBlocks disk diskSize (some bits) rows =
      (some (workerFlush spi disk diskSize bits rows).1, (workerFlush spi disk diskSize bits rows).2) := by
  unfold workerFlushDirtyBlocks workerFlush
  by_cases hd : diskSize = 0
  · rw [if_pos (.inl hd)]
    exact if_pos hd
  · rw [if_neg (not_or.2 ⟨hd, ne_false_of_eq_true hconnect⟩), workerInsertLoop_ok hok]
    exact if_neg hd

end PgLinux
