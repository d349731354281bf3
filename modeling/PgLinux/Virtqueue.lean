import PgLinux.DiskBounds
import PgLinux.Lib.Ring
import PgLinux.Lib.Runs
/-!
# Virtqueue — the block device's queue and its driver (`virtio_blk_process_queue`)

The driver builds requests and publishes their heads in the available ring; a notify makes the device serve every head
it has not seen and add one element to the used ring for each.  Both sides count in 16 bits that run freely.
-/
namespace PgLinux

/-! ## Guest bytes -/

/-- `a` is one of the `n` bytes from `start` on, as addresses wrap. -/
def Within (start : U64) (n : Nat) (a : U64) : Prop := (a - start).toNat < n

instance (start : U64) (n : Nat) (a : U64) : Decidable (Within start n a) := Nat.decLt _ _

def guestByte (ram : Mem) (a : U64) : U8 := ram (a - ramBase)

/-- The little-endian number at a guest address. -/
def guestNum (ram : Mem) (a : U64) (n : Nat) : U64 := ram.read (a - ramBase) n

def SameOn (P : U64 → Prop) (ram ram' : Mem) : Prop := ∀ a, P a → guestByte ram' a = guestByte ram a

theorem sub_ramBase (a b : U64) : a - ramBase - (b - ramBase) = a - b := by
  apply BitVec.eq_of_toNat_eq
  simp only [BitVec.toNat_sub]
  omega

theorem add_sub_ramBase (a b : U64) : a - ramBase + b = a + b - ramBase := by
  apply BitVec.eq_of_toNat_eq
  simp only [BitVec.toNat_sub, BitVec.toNat_add]
  omega

theorem within_one {b a : U64} (h : Within b 1 a) : a = b := by
  unfold Within at h
  rw [BitVec.toNat_sub] at h
  apply BitVec.eq_of_toNat_eq
  omega

theorem guestByte_copy (ram src : Mem) (addr s : U64) (n : Nat) (a : U64) :
    guestByte (ram.copy (addr - ramBase) src s n) a =
      if Within addr n a then src (s + (a - addr)) else guestByte ram a := by
  unfold guestByte Within
  dsimp only [Mem.copy]
  rw [sub_ramBase]

/-- **What `guest_write` leaves at each address.** -/
theorem guestByte_guestWrite (ram : Mem) (ramSize addr : U64) (buf : Mem) (off len a : U64) :
    guestByte (guestWrite ram ramSize addr buf off len).1 a =
      if guestInBounds ramSize addr len = true ∧ Within addr len.toNat a then buf (off + (a - addr))
      else guestByte ram a := by
  unfold guestWrite
  by_cases hin : guestInBounds ramSize addr len = true
  · rw [if_pos hin]
    dsimp only
    rw [guestByte_copy]
    simp [hin]
  · simp [hin]

theorem guestWrite_same (ram : Mem) (ramSize addr : U64) (buf : Mem) (off len : U64) :
    SameOn (fun a => ¬ Within addr len.toNat a) ram (guestWrite ram ramSize addr buf off len).1 := by
  intro a ha
  rw [guestByte_guestWrite, if_neg fun h => ha h.2]

theorem SameOn.refl (P : U64 → Prop) (ram : Mem) : SameOn P ram ram := fun _ _ => rfl

theorem SameOn.trans {P : U64 → Prop} {ram ram' ram'' : Mem} (h : SameOn P ram ram') (h' : SameOn P ram' ram'') :
    SameOn P ram ram'' := fun a ha => (h' a ha).trans (h a ha)

theorem SameOn.mono {P Q : U64 → Prop} {ram ram' : Mem} (h : SameOn P ram ram') (hpq : ∀ a, Q a → P a) :
    SameOn Q ram ram' := fun a ha => h a (hpq a ha)

theorem SameOn.symm {P : U64 → Prop} {ram ram' : Mem} (h : SameOn P ram ram') : SameOn P ram' ram :=
  fun a ha => (h a ha).symm

theorem SameOn.num {P : U64 → Prop} {ram ram' : Mem} (h : SameOn P ram ram') {a : U64} {n : Nat}
    (ha : ∀ i, i < n → P (a + BitVec.ofNat 64 i)) : guestNum ram' a n = guestNum ram a n := by
  refine Mem.read_congr n _ fun i hi => ?_
  have := h _ (ha i hi)
  unfold guestByte at this
  rwa [add_sub_ramBase]

/-- What `guest_read` gets into a buffer, as a number. -/
theorem guestRead_num {ram : Mem} {ramSize addr : U64} {n : Nat} (hn : n < 2 ^ 64)
    (hin : guestInBounds ramSize addr (BitVec.ofNat 64 n) = true) (buf : Mem) :
    (guestRead ram ramSize addr buf 0 (BitVec.ofNat 64 n)).1.read 0 n = guestNum ram addr n := by
  unfold guestRead
  rw [if_pos hin, BitVec.toNat_ofNat, Nat.mod_eq_of_lt hn]
  exact Mem.read_copy buf ram 0 _ n hn

theorem guestRead16_eq {ram : Mem} {ramSize addr : U64} (hin : guestInBounds ramSize addr 2 = true) (v : U16) :
    guestRead16 ram ramSize addr v = ((guestNum ram addr 2).setWidth 16, true) := by
  unfold guestRead16
  dsimp only
  rw [guestRead_snd, hin]
  exact congrArg (fun x => (BitVec.setWidth 16 x, true)) (guestRead_num (n := 2) (by decide) hin _)

/-! ## The layout of a queue -/

/-- The `n` bytes from `addr` on, counted without wraparound, are guest RAM. -/
def InRam (ramSize addr : U64) (n : Nat) : Prop :=
  ramBase.toNat ≤ addr.toNat ∧ addr.toNat + n ≤ ramBase.toNat + ramSize.toNat

def VirtioQueue.InTable (vq : VirtioQueue) (a : U64) : Prop := Within vq.desc_addr (16 * vq.num.toNat) a
def VirtioQueue.InAvail (vq : VirtioQueue) (a : U64) : Prop := Within vq.avail_addr (4 + 2 * vq.num.toNat) a
def VirtioQueue.InUsed (vq : VirtioQueue) (a : U64) : Prop := Within vq.used_addr (4 + 8 * vq.num.toNat) a

/-- A size the device takes, and three areas of RAM apart from each other. -/
structure VirtioQueue.LaidOut (vq : VirtioQueue) (ramSize : U64) : Prop where
  num : ∃ k, k ≤ 8 ∧ vq.num.toNat = 2 ^ k
  ram : ramBase.toNat + ramSize.toNat < 2 ^ 64
  table : InRam ramSize vq.desc_addr (16 * vq.num.toNat)
  avail : InRam ramSize vq.avail_addr (4 + 2 * vq.num.toNat)
  used : InRam ramSize vq.used_addr (4 + 8 * vq.num.toNat)
  table_avail : ∀ a, ¬ (vq.InTable a ∧ vq.InAvail a)
  table_used : ∀ a, ¬ (vq.InTable a ∧ vq.InUsed a)
  avail_used : ∀ a, ¬ (vq.InAvail a ∧ vq.InUsed a)

theorem InRam.inBounds {ramSize base a len : U64} {n off : Nat} (h : InRam ramSize base n)
    (hram : ramBase.toNat + ramSize.toNat < 2 ^ 64) (ha : a.toNat = base.toNat + off) (hlen : off + len.toNat ≤ n) :
    guestInBounds ramSize a len = true := by
  obtain ⟨hlo, hhi⟩ := h
  rw [guestInBounds_iff]
  omega

/-- A range that does not wrap, in `Nat`. -/
theorem within_iff {base a : U64} {n : Nat} (h : base.toNat + n ≤ 2 ^ 64) :
    Within base n a ↔ base.toNat ≤ a.toNat ∧ a.toNat < base.toNat + n := by
  unfold Within
  rw [BitVec.toNat_sub]
  have := a.isLt
  omega

theorem add_ofNat_toNat (base : U64) (n : Nat) {i : Nat} (h : base.toNat + n ≤ 2 ^ 64) (hi : i < n) :
    (base + BitVec.ofNat 64 i).toNat = base.toNat + i := by
  rw [BitVec.toNat_add, BitVec.toNat_ofNat]
  omega

theorem apart_ranges {b b' : U64} {n n' : Nat} (h : b.toNat + n ≤ 2 ^ 64) (h' : b'.toNat + n' ≤ 2 ^ 64)
    (hapart : b.toNat + n ≤ b'.toNat ∨ b'.toNat + n' ≤ b.toNat) (a : U64) : ¬ (Within b n a ∧ Within b' n' a) := by
  rw [within_iff h, within_iff h']
  omega

theorem within_inner {base off a : U64} {n m : Nat} (h : Within (base + off) n a) (hoff : off.toNat + n ≤ m) :
    Within base m a := by
  have hbase := base.isLt
  have hoff' := off.isLt
  have ha := a.isLt
  unfold Within at h ⊢
  rw [BitVec.toNat_sub, BitVec.toNat_add] at h
  rw [BitVec.toNat_sub]
  omega

theorem within_offset {base a : U64} {n off i : Nat} (ha : a.toNat = base.toNat + off) (hi : off + i < n)
    (hn : n < 2 ^ 64) : Within base n (a + BitVec.ofNat 64 i) := by
  unfold Within
  rw [BitVec.toNat_sub, BitVec.toNat_add, BitVec.toNat_ofNat, ha]
  have := base.isLt
  omega

namespace VirtioQueue

variable {vq : VirtioQueue} {ramSize : U64}

theorem LaidOut.num_pos (h : vq.LaidOut ramSize) : 0 < vq.num.toNat := by
  obtain ⟨k, -, hk⟩ := h.num
  rw [hk]
  exact Nat.two_pow_pos k

theorem LaidOut.num_le (h : vq.LaidOut ramSize) : vq.num.toNat ≤ 256 := by
  obtain ⟨k, hk8, hk⟩ := h.num
  rw [hk]
  exact Nat.pow_le_pow_right (by decide) hk8

theorem LaidOut.num_dvd (h : vq.LaidOut ramSize) : vq.num.toNat ∣ 2 ^ 16 := by
  obtain ⟨k, hk8, hk⟩ := h.num
  rw [hk]
  exact Nat.pow_dvd_pow 2 (by omega)

theorem LaidOut.desc_toNat (h : vq.LaidOut ramSize) {idx : U16} (hidx : idx.toNat < vq.num.toNat) :
    (vq.desc_addr + idx.setWidth 64 * 16).toNat = vq.desc_addr.toNat + 16 * idx.toNat := by
  obtain ⟨-, hhi⟩ := h.table
  have h16 : (16 : U64).toNat = 16 := rfl
  have := h.ram
  have := h.num_le
  rw [BitVec.toNat_add, BitVec.toNat_mul, BitVec.toNat_setWidth, h16]
  omega

/-- `ring_idx` of a counter. -/
def ringIdx (vq : VirtioQueue) (counter : U16) : U16 := (counter.setWidth 32 % vq.num).setWidth 16

theorem LaidOut.ringIdx_toNat (h : vq.LaidOut ramSize) (n : Nat) :
    (vq.ringIdx (BitVec.ofNat 16 n)).toNat = n % vq.num.toNat := by
  have hpos := h.num_pos
  have hle := h.num_le
  have hslot := Ring.slot_ofNat h.num_dvd n
  have hlt := Nat.mod_lt n hpos
  unfold ringIdx
  rw [BitVec.toNat_setWidth, BitVec.toNat_umod, BitVec.toNat_setWidth,
    Nat.mod_eq_of_lt (a := (BitVec.ofNat 16 n).toNat) (by omega), hslot]
  omega

/-- The address of slot `i` of the available ring. -/
def availSlot (vq : VirtioQueue) (i : Nat) : U64 := vq.avail_addr + 4 + BitVec.ofNat 64 i * 2

def usedSlot (vq : VirtioQueue) (i : Nat) : U64 := vq.used_addr + 4 + BitVec.ofNat 64 i * 8

theorem LaidOut.availSlot_toNat (h : vq.LaidOut ramSize) {i : Nat} (hi : i < vq.num.toNat) :
    (vq.availSlot i).toNat = vq.avail_addr.toNat + (4 + 2 * i) := by
  obtain ⟨-, hhi⟩ := h.avail
  have h4 : (4 : U64).toNat = 4 := rfl
  have h2 : (2 : U64).toNat = 2 := rfl
  have := h.ram
  have := h.num_le
  unfold availSlot
  rw [BitVec.toNat_add, BitVec.toNat_add, BitVec.toNat_mul, BitVec.toNat_ofNat, h4, h2]
  omega

theorem LaidOut.usedSlot_toNat (h : vq.LaidOut ramSize) {i : Nat} (hi : i < vq.num.toNat) :
    (vq.usedSlot i).toNat = vq.used_addr.toNat + (4 + 8 * i) := by
  obtain ⟨-, hhi⟩ := h.used
  have h4 : (4 : U64).toNat = 4 := rfl
  have h8 : (8 : U64).toNat = 8 := rfl
  have := h.ram
  have := h.num_le
  unfold usedSlot
  rw [BitVec.toNat_add, BitVec.toNat_add, BitVec.toNat_mul, BitVec.toNat_ofNat, h4, h8]
  omega

end VirtioQueue

/-! ## Descriptor chains -/

section Chains

variable (dev : VirtioDev) (vq : VirtioQueue) (ramSize : U64)

/-- Descriptor `idx` of the table. -/
def descAt (ram : Mem) (idx : U16) : VringDesc := .ofBytes (readDesc vq ramSize ram idx fun _ => 0).1

/-- The indices that a walk of at most `n` descriptors visits. -/
def chain (ram : Mem) : Nat → U16 → List U16
  | 0, _ => []
  | n + 1, idx =>
    idx :: if (descAt vq ramSize ram idx).hasNext then chain ram n (descAt vq ramSize ram idx).next else []

/-- The bytes of descriptor `i` in the table, and behind it: the device does not compare `i` with the size. -/
def VirtioQueue.InEntry (i : U16) (a : U64) : Prop := Within (vq.desc_addr + i.setWidth 64 * 16) 16 a

def VirtioQueue.readable (i : U16) : Bool := guestInBounds ramSize (vq.desc_addr + i.setWidth 64 * 16) 16

def VringDesc.InBuffer (d : VringDesc) (a : U64) : Prop := Within d.addr d.len.toNat a

def VirtioQueue.InRings (a : U64) : Prop := vq.InTable a ∨ vq.InAvail a ∨ vq.InUsed a

/-- A chain of table descriptors whose buffers are apart from the queue. -/
structure ChainApart (ram : Mem) (n : Nat) (idx : U16) : Prop where
  table : ∀ i ∈ chain vq ramSize ram n idx, i.toNat < vq.num.toNat
  buffers : ∀ i ∈ chain vq ramSize ram n idx, ∀ a, (descAt vq ramSize ram i).InBuffer a → ¬ vq.InRings a

/-- A request whose buffers are apart from the queue, the status byte included. -/
structure RequestApart (ram : Mem) (head : U16) : Prop extends ChainApart vq ramSize ram vq.num.toNat head where
  status : ∀ i, (chain vq ramSize ram vq.num.toNat head).getLast? = some i → ¬ vq.InRings (descAt vq ramSize ram i).addr

variable {dev vq ramSize}

/-! ### Reading descriptors -/

section Reading

variable {ram ram' : Mem}

theorem VringDesc.ofBytes_congr {b b' : Mem} (h : ∀ i, i < 16 → b (BitVec.ofNat 64 i) = b' (BitVec.ofNat 64 i)) :
    VringDesc.ofBytes b = VringDesc.ofBytes b' := by
  have hread : ∀ off n, off + n ≤ 16 → b.read (BitVec.ofNat 64 off) n = b'.read (BitVec.ofNat 64 off) n := by
    intro off n hle
    refine Mem.read_congr n _ fun i hi => ?_
    rw [← BitVec.ofNat_add]
    exact h (off + i) (by omega)
  unfold VringDesc.ofBytes
  rw [show b.read 0 8 = b'.read 0 8 from hread 0 8 (by decide), show b.read 8 4 = b'.read 8 4 from hread 8 4 (by decide),
    show b.read 12 2 = b'.read 12 2 from hread 12 2 (by decide), show b.read 14 2 = b'.read 14 2 from hread 14 2 (by decide)]

theorem readDesc_eq (ram : Mem) (i : U16) (buf : Mem) : readDesc vq ramSize ram i buf =
    if vq.readable ramSize i = true then (buf.copy 0 ram (vq.desc_addr + i.setWidth 64 * 16 - ramBase) 16, true)
    else (buf, false) := rfl

theorem readDesc_same {i : U16} (h : SameOn (vq.InEntry i) ram ram') (buf : Mem) :
    readDesc vq ramSize ram' i buf = readDesc vq ramSize ram i buf := by
  rw [readDesc_eq, readDesc_eq]
  split
  · refine congrArg (·, true) (funext fun b => ?_)
    by_cases hb : (b - 0).toNat < 16
    · rw [Mem.copy_of_lt _ _ _ _ _ _ hb, Mem.copy_of_lt _ _ _ _ _ _ hb, add_sub_ramBase]
      refine h _ ?_
      unfold VirtioQueue.InEntry Within
      rwa [BitVec.add_comm, BitVec.add_sub_cancel]
    · rw [Mem.copy_of_le _ _ _ _ _ _ (Nat.not_lt.1 hb), Mem.copy_of_le _ _ _ _ _ _ (Nat.not_lt.1 hb)]
  · rfl

theorem descAt_same {i : U16} (h : SameOn (vq.InEntry i) ram ram') :
    descAt vq ramSize ram' i = descAt vq ramSize ram i :=
  congrArg (fun r : Mem × Bool => VringDesc.ofBytes r.1) (readDesc_same h fun _ => 0)

theorem chain_next (n : Nat) {idx : U16} (hnext : (descAt vq ramSize ram idx).hasNext = true) :
    chain vq ramSize ram (n + 1) idx = idx :: chain vq ramSize ram n (descAt vq ramSize ram idx).next := by
  rw [chain, if_pos hnext]

theorem mem_chain_next {n : Nat} {idx i : U16} (hnext : (descAt vq ramSize ram idx).hasNext = true)
    (hi : i ∈ chain vq ramSize ram n (descAt vq ramSize ram idx).next) : i ∈ chain vq ramSize ram (n + 1) idx := by
  rw [chain_next n hnext]
  exact List.mem_cons_of_mem _ hi

theorem chain_end (n : Nat) {idx : U16} (hnext : ¬ (descAt vq ramSize ram idx).hasNext = true) :
    chain vq ramSize ram (n + 1) idx = [idx] := by
  rw [chain, if_neg hnext]

/-- A chain of more than one descriptor. -/
theorem chain_cons {n : Nat} {idx i : U16} {is : List U16} (h : chain vq ramSize ram (n + 1) idx = i :: is)
    (his : is ≠ []) : idx = i ∧ (descAt vq ramSize ram idx).hasNext = true ∧
      chain vq ramSize ram n (descAt vq ramSize ram idx).next = is := by
  by_cases hnext : (descAt vq ramSize ram idx).hasNext = true
  · rw [chain_next n hnext] at h
    exact ⟨(List.cons.inj h).1, hnext, (List.cons.inj h).2⟩
  · rw [chain_end n hnext] at h
    exact absurd (List.cons.inj h).2.symm his

theorem chain_same : ∀ (n : Nat) (idx : U16), (∀ i ∈ chain vq ramSize ram n idx, SameOn (vq.InEntry i) ram ram') →
    chain vq ramSize ram' n idx = chain vq ramSize ram n idx
  | 0, _, _ => rfl
  | n + 1, idx, h => by
    have hd : descAt vq ramSize ram' idx = descAt vq ramSize ram idx := descAt_same (h idx (List.mem_cons_self ..))
    by_cases hnext : (descAt vq ramSize ram idx).hasNext = true
    · rw [chain_next n hnext] at h ⊢
      rw [chain_next n (hd ▸ hnext), hd, chain_same n _ fun i hi => h i (List.mem_cons_of_mem _ hi)]
    · rw [chain_end n hnext, chain_end n (hd ▸ hnext)]

/-- A descriptor that cannot be read is all zero. -/
theorem descAt_unreadable {i : U16} (h : vq.readable ramSize i = false) : descAt vq ramSize ram i = ⟨0, 0, 0, 0⟩ := by
  have hzero : (readDesc vq ramSize ram i fun _ => 0).1 = fun _ => 0 := by
    rw [readDesc_eq, h]
    rfl
  unfold descAt VringDesc.ofBytes
  rw [hzero]
  rfl

/-- The old contents of the local `desc` do not show through. -/
theorem readDesc_readable (ram : Mem) {i : U16} (h : vq.readable ramSize i = true) (buf : Mem) :
    VringDesc.ofBytes (readDesc vq ramSize ram i buf).1 = descAt vq ramSize ram i := by
  refine VringDesc.ofBytes_congr fun j hj => ?_
  have hlt : (BitVec.ofNat 64 j - (0 : U64)).toNat < 16 := by
    have hsub : BitVec.ofNat 64 j - (0 : U64) = BitVec.ofNat 64 j := BitVec.sub_zero _
    rw [hsub, BitVec.toNat_ofNat]
    exact Nat.lt_of_le_of_lt (Nat.mod_le _ _) hj
  rw [readDesc_eq, readDesc_eq, if_pos h, if_pos h]
  dsimp only
  rw [Mem.copy_of_lt _ _ _ _ _ _ hlt, Mem.copy_of_lt _ _ _ _ _ _ hlt]

end Reading

/-! ### Chains of the table -/

theorem ChainApart.head {ram : Mem} {n : Nat} {idx : U16} (h : ChainApart vq ramSize ram (n + 1) idx) :
    idx.toNat < vq.num.toNat ∧ ∀ a, (descAt vq ramSize ram idx).InBuffer a → ¬ vq.InRings a :=
  ⟨h.table idx (List.mem_cons_self ..), h.buffers idx (List.mem_cons_self ..)⟩

theorem ChainApart.tail {ram : Mem} {n : Nat} {idx : U16} (h : ChainApart vq ramSize ram (n + 1) idx)
    (hnext : (descAt vq ramSize ram idx).hasNext = true) :
    ChainApart vq ramSize ram n (descAt vq ramSize ram idx).next :=
  ⟨fun i hi => h.table i (mem_chain_next hnext hi), fun i hi => h.buffers i (mem_chain_next hnext hi)⟩

theorem VirtioQueue.LaidOut.readable (h : vq.LaidOut ramSize) {idx : U16} (hidx : idx.toNat < vq.num.toNat) :
    vq.readable ramSize idx = true := by
  have h16 : (16 : U64).toNat = 16 := rfl
  exact h.table.inBounds h.ram (h.desc_toNat hidx) (by rw [h16]; omega)

theorem VirtioQueue.LaidOut.entry_table (h : vq.LaidOut ramSize) {idx : U16} (hidx : idx.toNat < vq.num.toNat) (a : U64)
    (ha : vq.InEntry idx a) : vq.InTable a := by
  have hle := h.num_le
  have h16 : (16 : U64).toNat = 16 := rfl
  refine within_inner ha ?_
  rw [BitVec.toNat_mul, BitVec.toNat_setWidth, h16]
  omega

theorem descAt_congr (h : vq.LaidOut ramSize) {idx : U16} (hidx : idx.toNat < vq.num.toNat) {ram ram' : Mem}
    (hsame : SameOn vq.InTable ram ram') : descAt vq ramSize ram' idx = descAt vq ramSize ram idx :=
  descAt_same (hsame.mono (h.entry_table hidx))

/-- **A chain of the table is the same while the table is.** -/
theorem chain_congr (h : vq.LaidOut ramSize) {ram ram' : Mem} (hsame : SameOn vq.InTable ram ram') (n : Nat) (idx : U16)
    (hin : ∀ i ∈ chain vq ramSize ram n idx, i.toNat < vq.num.toNat) :
    chain vq ramSize ram' n idx = chain vq ramSize ram n idx :=
  chain_same n idx fun i hi => hsame.mono (h.entry_table (hin i hi))

theorem ChainApart.congr (h : vq.LaidOut ramSize) {ram ram' : Mem} (hsame : SameOn vq.InTable ram ram') {n : Nat}
    {idx : U16} (hc : ChainApart vq ramSize ram n idx) : ChainApart vq ramSize ram' n idx := by
  have hchain := chain_congr h hsame n idx hc.table
  refine ⟨fun i hi => hc.table i (hchain ▸ hi), fun i hi a ha => ?_⟩
  rw [hchain] at hi
  rw [descAt_congr h (hc.table i hi) hsame] at ha
  exact hc.buffers i hi a ha

theorem RequestApart.congr (h : vq.LaidOut ramSize) {ram ram' : Mem} (hsame : SameOn vq.InTable ram ram') {head : U16}
    (hc : RequestApart vq ramSize ram head) : RequestApart vq ramSize ram' head := by
  have hchain := chain_congr h hsame vq.num.toNat head hc.table
  refine ⟨hc.toChainApart.congr h hsame, fun i hi => ?_⟩
  rw [hchain] at hi
  rw [descAt_congr h (hc.table i (List.mem_of_getLast? hi)) hsame]
  exact hc.status i hi

/-! ### The second walk -/

/-- **A second walk that comes to an unreadable descriptor stays there**, with the one before it. -/
theorem lastDesc_stale (ram : Mem) {idx : U16} {buf : Mem} (hidx : vq.readable ramSize idx = false)
    (hnext : (VringDesc.ofBytes buf).hasNext = true) (hbuf : (VringDesc.ofBytes buf).next = idx) :
    ∀ n, lastDesc vq ramSize ram n idx buf = buf
  | 0 => rfl
  | n + 1 => by
    have hread : (readDesc vq ramSize ram idx buf).1 = buf :=
      guestRead_fail _ _ _ _ _ _ ((guestRead_snd _ _ _ _ _ _).trans hidx)
    unfold lastDesc
    dsimp only
    rw [hread, if_pos hnext, hbuf]
    exact lastDesc_stale ram hidx hnext hbuf n

/-- **The second walk ends with the last descriptor it can read.** -/
theorem lastDesc_lastRead (ram : Mem) : ∀ (n : Nat) (idx : U16) (buf : Mem), vq.readable ramSize idx = true →
    ∃ i, ((chain vq ramSize ram (n + 1) idx).filter (vq.readable ramSize)).getLast? = some i ∧
      VringDesc.ofBytes (lastDesc vq ramSize ram (n + 1) idx buf) = descAt vq ramSize ram i
  | n, idx, buf, hidx => by
    have hd := readDesc_readable ram hidx buf
    unfold lastDesc
    dsimp only
    rw [hd]
    by_cases hnext : (descAt vq ramSize ram idx).hasNext = true
    · rw [chain_next n hnext, List.filter_cons_of_pos hidx, if_pos hnext]
      by_cases hread : vq.readable ramSize (descAt vq ramSize ram idx).next = true
      · cases n with
        | zero => exact ⟨idx, rfl, hd⟩
        | succ n =>
          obtain ⟨i, hi, hlast⟩ := lastDesc_lastRead ram n (descAt vq ramSize ram idx).next
            (readDesc vq ramSize ram idx buf).1 hread
          refine ⟨i, ?_, hlast⟩
          rw [List.getLast?_cons, hi]
          rfl
      · -- the walk stays at the next index, which is not a descriptor it can read
        rw [Bool.not_eq_true] at hread
        have hstale := lastDesc_stale ram hread (hd ▸ hnext) (congrArg VringDesc.next hd) n
        have hnone : (chain vq ramSize ram n (descAt vq ramSize ram idx).next).filter (vq.readable ramSize) = [] := by
          cases n with
          | zero => rfl
          | succ n =>
            rw [chain_end n (by rw [descAt_unreadable hread]; decide),
              List.filter_cons_of_neg (by rw [hread]; decide)]
            rfl
        rw [hstale, hnone]
        exact ⟨idx, rfl, hd⟩
    · rw [chain_end n hnext, List.filter_cons_of_pos hidx, if_neg hnext]
      exact ⟨idx, rfl, hd⟩

/-- In a chain of the table that is the last one. -/
theorem lastDesc_descAt (h : vq.LaidOut ramSize) (ram : Mem) (n : Nat) (idx : U16) (buf : Mem)
    (hin : ∀ i ∈ chain vq ramSize ram (n + 1) idx, i.toNat < vq.num.toNat) :
    ∃ i, (chain vq ramSize ram (n + 1) idx).getLast? = some i ∧
      VringDesc.ofBytes (lastDesc vq ramSize ram (n + 1) idx buf) = descAt vq ramSize ram i := by
  have hread := lastDesc_lastRead ram n idx buf (h.readable (hin idx (List.mem_cons_self ..)))
  rwa [List.filter_eq_self.2 fun i hi => h.readable (hin i hi)] at hread

end Chains

/-! ## What a request writes -/

section Request

variable (dev : VirtioDev) {vq : VirtioQueue} {ramSize : U64}

/-- **A data descriptor writes its own buffer at most.** -/
theorem virtioBlkData_ram (w : BlkWalk) (d : VringDesc) :
    SameOn (fun a => ¬ d.InBuffer a) w.mem.ram (virtioBlkData dev ramSize w d).mem.ram := by
  unfold virtioBlkData
  split
  · have hsame := guestWrite_same w.mem.ram ramSize d.addr w.mem.disk (w.hdr.sector * 512) (d.len.setWidth 64)
    rw [len_toNat] at hsame
    show SameOn _ _ (virtioBlkIn dev ramSize (w.note d) d).mem.ram
    unfold virtioBlkIn
    dsimp only
    split
    · exact .refl _ _
    · split
      · exact hsame
      · exact .refl _ _
  · split
    · show SameOn _ _ (virtioBlkOut dev ramSize (w.note d) d).mem.ram
      unfold virtioBlkOut
      dsimp only
      split
      · exact .refl _ _
      · split <;> exact .refl _ _
    · split <;> exact .refl _ _

/-- One iteration on a descriptor of the table, with the descriptor named. -/
theorem virtioBlkDesc_eq (h : vq.LaidOut ramSize) (w : BlkWalk) (hidx : w.idx.toNat < vq.num.toNat) :
    virtioBlkDesc dev vq ramSize w =
      let d := descAt vq ramSize w.mem.ram w.idx
      if w.phase = 0 then
        if d.len < 16 then ({ w with status := virtioBlkSIoerr }, false)
        else
          let r := guestRead w.mem.ram ramSize d.addr (fun _ => 0) 0 16
          if !r.2 then ({ w with status := virtioBlkSIoerr }, false)
          else ({ w with hdr := .ofBytes r.1, phase := 1, idx := if d.hasNext then d.next else w.idx }, d.hasNext)
      else if !d.hasNext || (d.isWrite && decide (d.len = 1)) then
        ({ w with phase := 2, idx := if d.hasNext then d.next else w.idx }, d.hasNext)
      else ({ virtioBlkData dev ramSize w d with idx := if d.hasNext then d.next else w.idx }, d.hasNext) := by
  have hread : (readDesc vq ramSize w.mem.ram w.idx fun _ => 0).2 = true := (guestRead_snd ..).trans (h.readable hidx)
  unfold virtioBlkDesc
  exact if_neg (by rw [hread]; decide)

/-- **One iteration writes the buffer of its descriptor at most**, and goes on to the next one or stops. -/
theorem virtioBlkDesc_ram (h : vq.LaidOut ramSize) (w : BlkWalk) (hidx : w.idx.toNat < vq.num.toNat) :
    SameOn (fun a => ¬ (descAt vq ramSize w.mem.ram w.idx).InBuffer a) w.mem.ram
        (virtioBlkDesc dev vq ramSize w).1.mem.ram ∧
      ((virtioBlkDesc dev vq ramSize w).2 = true → (descAt vq ramSize w.mem.ram w.idx).hasNext = true ∧
        (virtioBlkDesc dev vq ramSize w).1.idx = (descAt vq ramSize w.mem.ram w.idx).next) := by
  rw [virtioBlkDesc_eq dev h w hidx]
  generalize descAt vq ramSize w.mem.ram w.idx = d
  have hidx' : d.hasNext = true → (if d.hasNext then d.next else w.idx) = d.next := fun hn => if_pos hn
  dsimp only
  by_cases hp : w.phase = 0
  · rw [if_pos hp]
    split
    · exact ⟨.refl _ _, fun hf => by cases hf⟩
    · split
      · exact ⟨.refl _ _, fun hf => by cases hf⟩
      · exact ⟨.refl _ _, fun hn => ⟨hn, hidx' hn⟩⟩
  · rw [if_neg hp]
    split
    · exact ⟨.refl _ _, fun hn => ⟨hn, hidx' hn⟩⟩
    · exact ⟨virtioBlkData_ram dev w d, fun hn => ⟨hn, hidx' hn⟩⟩

/-- **The walk writes the buffers of its chain at most.** -/
theorem virtioBlkWalk_ram (h : vq.LaidOut ramSize) : ∀ (n : Nat) (w : BlkWalk), ChainApart vq ramSize w.mem.ram n w.idx →
    SameOn (fun a => ∀ i ∈ chain vq ramSize w.mem.ram n w.idx, ¬ (descAt vq ramSize w.mem.ram i).InBuffer a) w.mem.ram
      (virtioBlkWalk dev vq ramSize n w).mem.ram
  | 0, w, _ => .refl _ _
  | n + 1, w, hc => by
    obtain ⟨hidx, hapart⟩ := hc.head
    obtain ⟨hram, hnext⟩ := virtioBlkDesc_ram dev h w hidx
    have hnow : SameOn (fun a => ∀ i ∈ chain vq ramSize w.mem.ram (n + 1) w.idx,
        ¬ (descAt vq ramSize w.mem.ram i).InBuffer a) w.mem.ram (virtioBlkDesc dev vq ramSize w).1.mem.ram :=
      hram.mono fun a ha => ha _ (List.mem_cons_self ..)
    unfold virtioBlkWalk
    split
    next hgo =>
      obtain ⟨hn, hat⟩ := hnext hgo
      -- the table is as before, so the rest of the chain is the one that was published
      have htable : SameOn vq.InTable w.mem.ram (virtioBlkDesc dev vq ramSize w).1.mem.ram :=
        hram.mono fun a ha hb => hapart a hb (.inl ha)
      have hrest : ChainApart vq ramSize (virtioBlkDesc dev vq ramSize w).1.mem.ram n
          (virtioBlkDesc dev vq ramSize w).1.idx := hat ▸ (hc.tail hn).congr h htable
      refine hnow.trans ((virtioBlkWalk_ram h n _ hrest).mono fun a ha i hi => ?_)
      rw [hat, chain_congr h htable n _ (hc.tail hn).table] at hi
      rw [descAt_congr h ((hc.tail hn).table i hi) htable]
      exact ha i (mem_chain_next hn hi)
    next => exact hnow

theorem virtioBlkRequest_rings (h : vq.LaidOut ramSize) (mem : BlkMem) (head : U16)
    (hc : RequestApart vq ramSize mem.ram head) :
    SameOn vq.InRings mem.ram (virtioBlkRequest dev vq ramSize mem head).mem.ram :=
  (virtioBlkWalk_ram dev h vq.num.toNat (.start mem head) hc.toChainApart).mono fun a ha i hi hb => hc.buffers i hi a hb ha

/-- **The status byte goes to the last descriptor's buffer.** -/
theorem writeStatus_ram (h : vq.LaidOut ramSize) (w : BlkWalk) (head : U16)
    (hc : RequestApart vq ramSize w.mem.ram head) : ∃ i,
      (chain vq ramSize w.mem.ram vq.num.toNat head).getLast? = some i ∧
      writeStatus vq ramSize w head = if 1 ≤ w.phase then
        (guestWrite w.mem.ram ramSize (descAt vq ramSize w.mem.ram i).addr (fun _ => w.status) 0 1).1
      else w.mem.ram := by
  have htable := hc.table
  have hpos := h.num_pos
  obtain ⟨n, hn⟩ : ∃ n, vq.num.toNat = n + 1 := ⟨vq.num.toNat - 1, by omega⟩
  unfold writeStatus
  rw [hn] at htable ⊢
  obtain ⟨i, hi, hlast⟩ := lastDesc_descAt h w.mem.ram n head (fun _ => 0) (by rwa [hn])
  exact ⟨i, hi, by rw [hlast]⟩

theorem writeStatus_rings (h : vq.LaidOut ramSize) (w : BlkWalk) (head : U16)
    (hc : RequestApart vq ramSize w.mem.ram head) : SameOn vq.InRings w.mem.ram (writeStatus vq ramSize w head) := by
  obtain ⟨i, hi, hw⟩ := writeStatus_ram h w head hc
  rw [hw]
  split
  · exact (guestWrite_same _ _ _ _ _ _).mono fun a ha hb => hc.status i hi (within_one hb ▸ ha)
  · exact .refl _ _

end Request

/-! ## The rings -/

section Rings

variable (vq : VirtioQueue)

def VirtioQueue.availIdx (ram : Mem) : U16 := (guestNum ram (vq.avail_addr + 2) 2).setWidth 16
def VirtioQueue.availHead (ram : Mem) (i : Nat) : U16 := (guestNum ram (vq.availSlot i) 2).setWidth 16
def VirtioQueue.usedIdx (ram : Mem) : U16 := (guestNum ram (vq.used_addr + 2) 2).setWidth 16

/-- `id` and `len` of element `i` of the used ring. -/
def VirtioQueue.usedElem (ram : Mem) (i : Nat) : U32 × U32 :=
  ((guestNum ram (vq.usedSlot i) 4).setWidth 32, (guestNum ram (vq.usedSlot i + 4) 4).setWidth 32)

/-- One element more in slot `slot`, and nothing else in the used ring. -/
structure VirtioQueue.AddsUsed (ram ram' : Mem) (slot : Nat) (elem : U32 × U32) : Prop where
  elem : vq.usedElem ram' slot = elem
  others : ∀ i, i < vq.num.toNat → i ≠ slot → vq.usedElem ram' i = vq.usedElem ram i
  idx : vq.usedIdx ram' = vq.usedIdx ram + 1

variable {vq} {ramSize : U64}

theorem guestNum_of_bytes {w : Nat} (n : Nat) (hw : w = 8 * n) (hn : n ≤ 8) {ram : Mem} {a : U64} {v : BitVec w}
    (h : ∀ i, i < n → guestByte ram (a + BitVec.ofNat 64 i) = byteOf (v.setWidth 64) i) :
    (guestNum ram a n).setWidth w = v := by
  have hstored : guestNum ram a n = (Mem.write (fun _ => 0) 0 n (v.setWidth 64)).read 0 n := by
    refine Mem.read_shift n _ _ fun i hi => ?_
    have hsub : 0 + BitVec.ofNat 64 i - (0 : U64) = BitVec.ofNat 64 i := add_sub_self 0 i
    have hi64 : (BitVec.ofNat 64 i).toNat = i := by
      rw [BitVec.toNat_ofNat]
      omega
    rw [Mem.write_of_lt _ _ _ _ _ (by rw [hsub, hi64]; exact hi), hsub, hi64, add_sub_ramBase]
    exact h i hi
  rw [hstored]
  exact Mem.read_num n hw hn _ _ v

namespace VirtioQueue

theorem LaidOut.availIdx_toNat (h : vq.LaidOut ramSize) : (vq.avail_addr + 2).toNat = vq.avail_addr.toNat + 2 := by
  obtain ⟨-, hhi⟩ := h.avail
  have := h.ram
  rw [BitVec.toNat_add]
  exact Nat.mod_eq_of_lt (by show _ + 2 < _; omega)

theorem LaidOut.usedIdx_toNat (h : vq.LaidOut ramSize) : (vq.used_addr + 2).toNat = vq.used_addr.toNat + 2 := by
  obtain ⟨-, hhi⟩ := h.used
  have := h.ram
  rw [BitVec.toNat_add]
  exact Nat.mod_eq_of_lt (by show _ + 2 < _; omega)

/-- The available index as the device reads it. -/
theorem LaidOut.read_availIdx (h : vq.LaidOut ramSize) (ram : Mem) :
    guestRead16 ram ramSize (vq.avail_addr + 2) 0 = (vq.availIdx ram, true) :=
  guestRead16_eq (h.avail.inBounds h.ram h.availIdx_toNat (by show 2 + 2 ≤ _; omega)) 0

/-- A slot of the available ring as the device reads it. -/
theorem LaidOut.read_availHead (h : vq.LaidOut ramSize) (ram : Mem) (n : Nat) :
    guestRead16 ram ramSize (vq.avail_addr + 4 + (vq.ringIdx (BitVec.ofNat 16 n)).setWidth 64 * 2) 0 =
      (vq.availHead ram (n % vq.num.toNat), true) := by
  have hlt := Nat.mod_lt n h.num_pos
  have hslot : vq.avail_addr + 4 + (vq.ringIdx (BitVec.ofNat 16 n)).setWidth 64 * 2 = vq.availSlot (n % vq.num.toNat) := by
    unfold availSlot
    rw [← h.ringIdx_toNat n, BitVec.ofNat_toNat]
  rw [hslot]
  exact guestRead16_eq (h.avail.inBounds h.ram (h.availSlot_toNat hlt) (by show _ + 2 ≤ _; omega)) 0

theorem LaidOut.availHead_same (h : vq.LaidOut ramSize) {ram ram' : Mem} (hsame : SameOn vq.InAvail ram ram') {i : Nat}
    (hi : i < vq.num.toNat) : vq.availHead ram' i = vq.availHead ram i := by
  have hle := h.num_le
  unfold availHead
  rw [hsame.num fun j hj => within_offset (h.availSlot_toNat hi) (by omega) (by omega)]

theorem LaidOut.availIdx_same (h : vq.LaidOut ramSize) {ram ram' : Mem} (hsame : SameOn vq.InAvail ram ram') :
    vq.availIdx ram' = vq.availIdx ram := by
  have hle := h.num_le
  unfold availIdx
  rw [hsame.num fun j hj => within_offset h.availIdx_toNat (by omega) (by omega)]

theorem LaidOut.usedIdx_same (h : vq.LaidOut ramSize) {ram ram' : Mem} (hsame : SameOn vq.InUsed ram ram') :
    vq.usedIdx ram' = vq.usedIdx ram := by
  have hle := h.num_le
  unfold usedIdx
  rw [hsame.num fun j hj => within_offset h.usedIdx_toNat (by omega) (by omega)]

theorem LaidOut.usedLen_toNat (h : vq.LaidOut ramSize) {i : Nat} (hi : i < vq.num.toNat) :
    (vq.usedSlot i + 4).toNat = vq.used_addr.toNat + (8 + 8 * i) := by
  have h4 : (4 : U64).toNat = 4 := rfl
  obtain ⟨-, hhi⟩ := h.used
  have := h.ram
  rw [BitVec.toNat_add, h.usedSlot_toNat hi, h4]
  omega

theorem LaidOut.usedElem_same (h : vq.LaidOut ramSize) {ram ram' : Mem} {i : Nat} (hi : i < vq.num.toNat)
    (hsame : SameOn (fun a => Within (vq.usedSlot i) 8 a) ram ram') : vq.usedElem ram' i = vq.usedElem ram i := by
  have hslot := h.usedSlot_toNat hi
  have hlen := h.usedLen_toNat hi
  have hid : (vq.usedSlot i).toNat = (vq.usedSlot i).toNat + 0 := rfl
  have hafter : (vq.usedSlot i + 4).toNat = (vq.usedSlot i).toNat + 4 := by omega
  unfold usedElem
  rw [hsame.num fun j hj => within_offset hid (by omega) (by omega),
    hsame.num fun j hj => within_offset hafter (by omega) (by omega)]

theorem LaidOut.usedElem_used (h : vq.LaidOut ramSize) {ram ram' : Mem} (hsame : SameOn vq.InUsed ram ram') {i : Nat}
    (hi : i < vq.num.toNat) : vq.usedElem ram' i = vq.usedElem ram i := by
  refine h.usedElem_same hi (hsame.mono fun a ha => ?_)
  have hslot := h.usedSlot_toNat hi
  have hle := h.num_le
  have hram := h.ram
  obtain ⟨-, hhi⟩ := h.used
  have ha := (within_iff (by omega)).1 ha
  exact (within_iff (by omega)).2 (by omega)

end VirtioQueue

/-- **The bytes of guest memory after the used element is added.** -/
theorem guestByte_addUsed (h : vq.LaidOut ramSize) (ram : Mem) (head : U16) (total : U32) (k : Nat)
    (hk : vq.usedIdx ram = BitVec.ofNat 16 k) (a : U64) :
    guestByte (addUsed vq ramSize ram head total) a =
      if Within (vq.used_addr + 2) 2 a then byteOf ((vq.usedIdx ram + 1).setWidth 64) (a - (vq.used_addr + 2)).toNat
      else if Within (vq.usedSlot (k % vq.num.toNat)) 8 a then
        if a - vq.usedSlot (k % vq.num.toNat) < 4 then
          byteOf (head.setWidth 64) (a - vq.usedSlot (k % vq.num.toNat)).toNat
        else byteOf (total.setWidth 64) (a - vq.usedSlot (k % vq.num.toNat) - 4).toNat
      else guestByte ram a := by
  have hlt := Nat.mod_lt k h.num_pos
  have hidxIn : guestInBounds ramSize (vq.used_addr + 2) 2 = true :=
    h.used.inBounds h.ram h.usedIdx_toNat (by show 2 + 2 ≤ _; omega)
  have hslotIn : guestInBounds ramSize (vq.usedSlot (k % vq.num.toNat)) 8 = true :=
    h.used.inBounds h.ram (h.usedSlot_toNat hlt) (by show _ + 8 ≤ _; omega)
  have hslot : vq.used_addr + 4 + (((vq.usedIdx ram).setWidth 32 % vq.num).setWidth 16 : U16).setWidth 64 * 8 =
      vq.usedSlot (k % vq.num.toNat) := by
    unfold VirtioQueue.usedSlot
    rw [← h.ringIdx_toNat k, BitVec.ofNat_toNat, hk]
    rfl
  have hread : (guestRead16 ram ramSize (vq.used_addr + 2) 0).1 = vq.usedIdx ram := by
    rw [guestRead16_eq hidxIn]
    rfl
  have h2 : (2 : U64).toNat = 2 := rfl
  have h8 : (8 : U64).toNat = 8 := rfl
  have hz : ∀ b : U64, 0 + b = b := BitVec.zero_add
  unfold addUsed
  dsimp only
  rw [hread, hslot]
  unfold guestWrite16
  rw [guestByte_guestWrite, guestByte_guestWrite]
  simp only [hidxIn, hslotIn, true_and, h2, h8, hz]

theorem ofNat_toNat_of_lt {j n : Nat} (hj : j < n) (hn : n ≤ 2 ^ 64) : (BitVec.ofNat 64 j).toNat = j := by
  rw [BitVec.toNat_ofNat]
  exact Nat.mod_eq_of_lt (by omega)

/-- **A finished request adds one element in the next slot**, and writes nothing but the used ring. -/
theorem addUsed_adds (h : vq.LaidOut ramSize) (ram : Mem) (head : U16) (total : U32) (k : Nat)
    (hk : vq.usedIdx ram = BitVec.ofNat 16 k) :
    SameOn (fun a => ¬ vq.InUsed a) ram (addUsed vq ramSize ram head total) ∧
      vq.AddsUsed ram (addUsed vq ramSize ram head total) (k % vq.num.toNat) (head.setWidth 32, total) := by
  have hbyte := guestByte_addUsed h ram head total k hk
  have hlt := Nat.mod_lt k h.num_pos
  generalize k % vq.num.toNat = slot at hbyte hlt ⊢
  have hslot := h.usedSlot_toNat hlt
  have hidx := h.usedIdx_toNat
  have hram := h.ram
  have hle := h.num_le
  obtain ⟨-, hhi⟩ := h.used
  have hkeep : ∀ a, ¬ Within (vq.used_addr + 2) 2 a → ¬ Within (vq.usedSlot slot) 8 a →
      guestByte (addUsed vq ramSize ram head total) a = guestByte ram a := by
    intro a h1 h2
    rw [hbyte, if_neg h1, if_neg h2]
  have hused : ∀ a, vq.InUsed a ↔ _ := fun a => within_iff (a := a) (show vq.used_addr.toNat + _ ≤ 2 ^ 64 by omega)
  have hinIdx : ∀ a, Within (vq.used_addr + 2) 2 a ↔ _ := fun a => within_iff (by omega)
  have hinSlot : ∀ a, Within (vq.usedSlot slot) 8 a ↔ _ := fun a => within_iff (by omega)
  refine ⟨fun a ha => hkeep a ?_ ?_, ?_, fun i hi hne => ?_, ?_⟩
  · have ha := mt (hused a).2 ha
    rw [hinIdx]
    omega
  · have ha := mt (hused a).2 ha
    rw [hinSlot]
    omega
  · refine Prod.ext (guestNum_of_bytes 4 rfl (by decide) fun j hj => ?_)
      (guestNum_of_bytes 4 rfl (by decide) fun j hj => ?_)
    · have hj64 := ofNat_toNat_of_lt hj (by decide)
      have ha := add_ofNat_toNat (vq.usedSlot slot) 8 (i := j) (by omega) (by omega)
      have hext : (head.setWidth 32).setWidth 64 = head.setWidth 64 := by
        apply BitVec.eq_of_toNat_eq
        simp only [BitVec.toNat_setWidth]
        omega
      have hlow : vq.usedSlot slot + BitVec.ofNat 64 j - vq.usedSlot slot < 4 := by
        rw [add_sub_self, BitVec.lt_def, hj64]
        exact hj
      rw [hbyte, if_neg (by rw [hinIdx]; omega), if_pos (by rw [hinSlot]; omega), if_pos hlow, add_sub_self, hj64, hext]
    · have hj64 := ofNat_toNat_of_lt hj (by decide)
      have h4 : (4 : U64).toNat = 4 := rfl
      have hlen := h.usedLen_toNat hlt
      have ha := add_ofNat_toNat (vq.usedSlot slot + 4) 4 (by omega) hj
      have hdiff : (vq.usedSlot slot + 4 + BitVec.ofNat 64 j - vq.usedSlot slot).toNat = 4 + j := by
        rw [BitVec.toNat_sub, ha]
        omega
      have hhigh : ¬ vq.usedSlot slot + 4 + BitVec.ofNat 64 j - vq.usedSlot slot < 4 := by
        rw [BitVec.lt_def, hdiff, h4]
        omega
      have hsub : vq.usedSlot slot + 4 + BitVec.ofNat 64 j - vq.usedSlot slot - 4 = BitVec.ofNat 64 j := by
        apply BitVec.eq_of_toNat_eq
        rw [BitVec.toNat_sub, hdiff, h4, hj64]
        omega
      rw [hbyte, if_neg (by rw [hinIdx]; omega), if_pos (by rw [hinSlot]; omega), if_neg hhigh, hsub, hj64]
  · have hi' := h.usedSlot_toNat hi
    have hini : ∀ a, Within (vq.usedSlot i) 8 a ↔ _ := fun a => within_iff (by omega)
    refine h.usedElem_same hi fun a ha => hkeep a ?_ ?_
    · have ha := (hini a).1 ha
      rw [hinIdx]
      omega
    · have ha := (hini a).1 ha
      rw [hinSlot]
      omega
  · refine guestNum_of_bytes 2 rfl (by decide) fun j hj => ?_
    have hj64 := ofNat_toNat_of_lt hj (by decide)
    have hin : Within (vq.used_addr + 2) 2 (vq.used_addr + 2 + BitVec.ofNat 64 j) := by
      unfold Within
      rw [add_sub_self, hj64]
      exact hj
    rw [hbyte, if_pos hin, add_sub_self, hj64]

end Rings

/-! ## Serving heads -/

section Serve

variable (dev : VirtioDev) (vq : VirtioQueue) (ramSize : U64)

/-- One pass of the loop once the head is read. -/
def serve (mem : BlkMem) (head : U16) : BlkMem :=
  let w := virtioBlkRequest dev vq ramSize mem head
  { w.mem with ram := addUsed vq ramSize (writeStatus vq ramSize w head) head w.total_bytes }

/-- Ghost: a head the loop has served, and the memory before and after. -/
structure Completion where
  head : U16
  len : U32
  before : BlkMem
  after : BlkMem

def Completion.elem (c : Completion) : U32 × U32 := (c.head.setWidth 32, c.len)

/-- Ghost: the passes that `virtioBlkLoop` makes. -/
def virtioBlkTrace : Nat → BlkMem → VirtioQueue → List Completion
  | 0, _, _ => []
  | n + 1, mem, vq =>
    let ringIdx : U16 := (vq.last_avail.setWidth 32 % vq.num).setWidth 16
    let head := guestRead16 mem.ram ramSize (vq.avail_addr + 4 + ringIdx.setWidth 64 * 2) 0
    if !head.2 then []
    else
      let w := virtioBlkRequest dev vq ramSize mem head.1
      let mem' := { w.mem with ram := addUsed vq ramSize (writeStatus vq ramSize w head.1) head.1 w.total_bytes }
      ⟨head.1, w.total_bytes, mem, mem'⟩ :: virtioBlkTrace n mem' { vq with last_avail := vq.last_avail + 1 }

/-- Ghost: the passes that `virtioBlkProcessQueue` makes. -/
def virtioBlkQueueTrace (qi : U32) (mem : BlkMem) : List Completion :=
  let vq := dev.queues qi
  if vq.ready = 0 ∨ vq.desc_addr = 0 then []
  else
    let avail := guestRead16 mem.ram ramSize (vq.avail_addr + 2) 0
    if !avail.2 then [] else virtioBlkTrace dev ramSize (avail.1 - vq.last_avail).toNat mem vq

/-- The passes that serve `heads`, one after the other. -/
def passes (mem : BlkMem) : List U16 → List Completion
  | [] => []
  | head :: heads =>
    ⟨head, (virtioBlkRequest dev vq ramSize mem head).total_bytes, mem, serve dev vq ramSize mem head⟩ ::
      passes (serve dev vq ramSize mem head) heads

theorem passes_head : ∀ (mem : BlkMem) (heads : List U16), (passes dev vq ramSize mem heads).map Completion.head = heads
  | _, [] => rfl
  | _, head :: heads => congrArg (head :: ·) (passes_head _ heads)

/-! ### The counter is not part of a request -/

theorem virtioBlkWalk_counter (l : U16) : ∀ (n : Nat) (w : BlkWalk),
    virtioBlkWalk dev { vq with last_avail := l } ramSize n w = virtioBlkWalk dev vq ramSize n w
  | 0, _ => rfl
  | n + 1, w => by
    have hd : virtioBlkDesc dev { vq with last_avail := l } ramSize w = virtioBlkDesc dev vq ramSize w := rfl
    unfold virtioBlkWalk
    rw [hd, virtioBlkWalk_counter l n]

theorem lastDesc_counter (l : U16) (ram : Mem) : ∀ (n : Nat) (idx : U16) (buf : Mem),
    lastDesc { vq with last_avail := l } ramSize ram n idx buf = lastDesc vq ramSize ram n idx buf
  | 0, _, _ => rfl
  | n + 1, idx, buf => by
    have hd : readDesc { vq with last_avail := l } ramSize ram idx buf = readDesc vq ramSize ram idx buf := rfl
    unfold lastDesc
    dsimp only
    rw [hd, lastDesc_counter l ram n]

theorem virtioBlkRequest_counter (l : U16) (mem : BlkMem) (head : U16) :
    virtioBlkRequest dev { vq with last_avail := l } ramSize mem head = virtioBlkRequest dev vq ramSize mem head :=
  virtioBlkWalk_counter dev vq ramSize l _ _

theorem writeStatus_counter (l : U16) (w : BlkWalk) (head : U16) :
    writeStatus { vq with last_avail := l } ramSize w head = writeStatus vq ramSize w head := by
  unfold writeStatus
  dsimp only
  rw [lastDesc_counter vq ramSize l]

theorem serve_counter (l : U16) (mem : BlkMem) (head : U16) :
    serve dev { vq with last_avail := l } ramSize mem head = serve dev vq ramSize mem head := by
  unfold serve
  dsimp only
  rw [virtioBlkRequest_counter, writeStatus_counter]
  rfl

/-! ### One pass and the loop -/

variable {vq ramSize}

/-- **One pass leaves the table and the available ring alone and adds the head's used element.** -/
theorem serve_adds (h : vq.LaidOut ramSize) (mem : BlkMem) (head : U16) (hc : RequestApart vq ramSize mem.ram head)
    (k : Nat) (hk : vq.usedIdx mem.ram = BitVec.ofNat 16 k) :
    SameOn (fun a => vq.InTable a ∨ vq.InAvail a) mem.ram (serve dev vq ramSize mem head).ram ∧
      vq.AddsUsed mem.ram (serve dev vq ramSize mem head).ram (k % vq.num.toNat)
        (head.setWidth 32, (virtioBlkRequest dev vq ramSize mem head).total_bytes) := by
  have hwalk := virtioBlkRequest_rings dev h mem head hc
  have hstatus := writeStatus_rings h (virtioBlkRequest dev vq ramSize mem head) head
    (hc.congr h (hwalk.mono fun a ha => .inl ha))
  have hrings := hwalk.trans hstatus
  have hused : SameOn vq.InUsed mem.ram (writeStatus vq ramSize (virtioBlkRequest dev vq ramSize mem head) head) :=
    hrings.mono fun a ha => .inr (.inr ha)
  have hidx := (h.usedIdx_same hused).trans hk
  obtain ⟨hout, hadd⟩ := addUsed_adds h _ head (virtioBlkRequest dev vq ramSize mem head).total_bytes k hidx
  refine ⟨(hrings.mono fun a ha => ?_).trans (hout.mono fun a ha => ?_), hadd.elem, fun i hi hne => ?_, ?_⟩
  · exact ha.imp id .inl
  · exact fun hu => ha.elim (fun ht => h.table_used a ⟨ht, hu⟩) (fun hv => h.avail_used a ⟨hv, hu⟩)
  · exact (hadd.others i hi hne).trans (h.usedElem_used hused hi)
  · exact hadd.idx.trans (congrArg (· + 1) (h.usedIdx_same hused))

/-- What the loop needs of memory to serve `heads` as entries `a`, `a + 1`, … of the queue. -/
structure Pending (vq : VirtioQueue) (ramSize : U64) (ram : Mem) (a : Nat) (heads : List U16) : Prop where
  ring : ∀ i x, heads[i]? = some x → vq.availHead ram ((a + i) % vq.num.toNat) = x
  apart : ∀ x ∈ heads, RequestApart vq ramSize ram x
  used : vq.usedIdx ram = BitVec.ofNat 16 a

theorem Pending.tail (h : vq.LaidOut ramSize) {mem : BlkMem} {a : Nat} {head : U16} {heads : List U16}
    (hp : Pending vq ramSize mem.ram a (head :: heads)) :
    Pending vq ramSize (serve dev vq ramSize mem head).ram (a + 1) heads := by
  obtain ⟨hsame, hadd⟩ := serve_adds dev h mem head (hp.apart head (List.mem_cons_self ..)) a hp.used
  refine ⟨fun i x hx => ?_, fun x hx => ?_, ?_⟩
  · rw [h.availHead_same (hsame.mono fun a ha => .inr ha) (Nat.mod_lt _ h.num_pos), Nat.add_right_comm]
    exact hp.ring (i + 1) x hx
  · exact (hp.apart x (List.mem_cons_of_mem _ hx)).congr h (hsame.mono fun a ha => .inl ha)
  · rw [hadd.idx, hp.used, BitVec.ofNat_add]
    rfl

/-- The pass of a head that could be read. -/
theorem virtioBlkLoop_succ (n : Nat) (mem : BlkMem) (l head : U16)
    (hread : guestRead16 mem.ram ramSize (vq.avail_addr + 4 + (vq.ringIdx l).setWidth 64 * 2) 0 = (head, true)) :
    virtioBlkLoop dev ramSize (n + 1) mem { vq with last_avail := l } =
        virtioBlkLoop dev ramSize n (serve dev vq ramSize mem head) { vq with last_avail := l + 1 } ∧
      virtioBlkTrace dev ramSize (n + 1) mem { vq with last_avail := l } =
        ⟨head, (virtioBlkRequest dev vq ramSize mem head).total_bytes, mem, serve dev vq ramSize mem head⟩ ::
          virtioBlkTrace dev ramSize n (serve dev vq ramSize mem head) { vq with last_avail := l + 1 } := by
  have hserve := serve_counter dev vq ramSize l mem head
  have hreq := virtioBlkRequest_counter dev vq ramSize l mem head
  unfold VirtioQueue.ringIdx at hread
  rw [← hserve, ← hreq]
  constructor
  · rw [virtioBlkLoop]
    dsimp only
    rw [hread]
    rfl
  · rw [virtioBlkTrace]
    dsimp only
    rw [hread]
    rfl

/-- **The loop serves the pending heads in order, each once**, and its counter comes to the last. -/
theorem virtioBlkLoop_serves (h : vq.LaidOut ramSize) : ∀ (heads : List U16) (a : Nat) (mem : BlkMem),
    Pending vq ramSize mem.ram a heads →
      virtioBlkLoop dev ramSize heads.length mem { vq with last_avail := BitVec.ofNat 16 a } =
        (heads.foldl (serve dev vq ramSize) mem, { vq with last_avail := BitVec.ofNat 16 (a + heads.length) }) ∧
      virtioBlkTrace dev ramSize heads.length mem { vq with last_avail := BitVec.ofNat 16 a } =
        passes dev vq ramSize mem heads
  | [], _, _, _ => ⟨rfl, rfl⟩
  | head :: heads, a, mem, hp => by
    have hread := h.read_availHead mem.ram a
    have hhead : vq.availHead mem.ram (a % vq.num.toNat) = head := hp.ring 0 head rfl
    rw [hhead] at hread
    obtain ⟨hloop, htrace⟩ := virtioBlkLoop_serves h heads (a + 1) (serve dev vq ramSize mem head) (hp.tail dev h)
    obtain ⟨hloop1, htrace1⟩ := virtioBlkLoop_succ dev heads.length mem (BitVec.ofNat 16 a) head hread
    have hnext : BitVec.ofNat 16 a + 1 = BitVec.ofNat 16 (a + 1) := (BitVec.ofNat_add a 1).symm
    have hlen : a + (head :: heads).length = a + 1 + heads.length := by
      rw [List.length_cons]
      omega
    rw [hnext] at hloop1 htrace1
    rw [hlen, List.length_cons]
    exact ⟨hloop1.trans hloop, htrace1.trans (congrArg (_ :: ·) htrace)⟩

/-- The used ring of `ram` after the completions `done`: each added its element in the next slot, the last round of them
is still there, and the index counts them. -/
structure UsedRing (vq : VirtioQueue) (ram : Mem) (done : List Completion) : Prop where
  adds : ∀ i c, done[i]? = some c → vq.AddsUsed c.before.ram c.after.ram (i % vq.num.toNat) c.elem
  ring : Ring.Holds (vq.usedElem ram) vq.num.toNat (done.length - vq.num.toNat) (done.map Completion.elem)
  idx : vq.usedIdx ram = BitVec.ofNat 16 done.length

theorem UsedRing.congr (h : vq.LaidOut ramSize) {ram ram' : Mem} (hsame : SameOn vq.InUsed ram ram')
    {done : List Completion} (hu : UsedRing vq ram done) : UsedRing vq ram' done :=
  ⟨hu.adds, hu.ring.congr (fun _ hi => h.usedElem_used hsame hi) h.num_pos, (h.usedIdx_same hsame).trans hu.idx⟩

theorem UsedRing.push (h : vq.LaidOut ramSize) {done : List Completion} {c : Completion}
    (hu : UsedRing vq c.before.ram done)
    (hadd : vq.AddsUsed c.before.ram c.after.ram (done.length % vq.num.toNat) c.elem) :
    UsedRing vq c.after.ram (done ++ [c]) := by
  have hpos := h.num_pos
  refine ⟨fun i c' hc' => ?_, ?_, ?_⟩
  · rcases Ring.getElem?_concat hc' with ⟨-, hc'⟩ | ⟨rfl, rfl⟩
    · exact hu.adds i c' hc'
    · exact hadd
  · rw [List.map_append]
    have hlen : (done.map Completion.elem).length = done.length := List.length_map _
    refine hu.ring.push ?_ (fun i hi hne => ?_) hpos ?_ ?_
    · rw [hlen]
      exact hadd.elem
    · rw [hlen] at hne
      exact hadd.others i hi hne
    · rw [List.length_append]
      omega
    · rw [hlen, List.length_append, List.length_singleton]
      omega
  · rw [hadd.idx, hu.idx, List.length_append, BitVec.ofNat_add]
    rfl

/-- **Serving the pending heads keeps the used ring, the table and the available ring.** -/
theorem passes_used (h : vq.LaidOut ramSize) : ∀ (heads : List U16) (done : List Completion) (mem : BlkMem),
    Pending vq ramSize mem.ram done.length heads → UsedRing vq mem.ram done →
      UsedRing vq (heads.foldl (serve dev vq ramSize) mem).ram (done ++ passes dev vq ramSize mem heads) ∧
      SameOn (fun a => vq.InTable a ∨ vq.InAvail a) mem.ram (heads.foldl (serve dev vq ramSize) mem).ram
  | [], done, mem, _, hu => ⟨by rwa [passes, List.append_nil], .refl _ _⟩
  | head :: heads, done, mem, hp, hu => by
    obtain ⟨hsame, hadd⟩ := serve_adds dev h mem head (hp.apart head (List.mem_cons_self ..)) _ hp.used
    have hone := UsedRing.push h (c := ⟨head, _, mem, serve dev vq ramSize mem head⟩) hu hadd
    have hlen : (done ++ [(⟨head, (virtioBlkRequest dev vq ramSize mem head).total_bytes, mem,
        serve dev vq ramSize mem head⟩ : Completion)]).length = done.length + 1 := List.length_append
    obtain ⟨hrest, hsame'⟩ := passes_used h heads _ _ (hlen ▸ hp.tail dev h) hone
    refine ⟨?_, hsame.trans hsame'⟩
    rw [List.append_assoc] at hrest
    exact hrest

end Serve

/-! ## The driver and the device -/

section System

variable (qi ramSize : U64)

/-- The device and guest memory; ghosts: the heads published so far and the passes the device has made. -/
structure QueueSystem where
  dev : VirtioDev
  mem : BlkMem
  published : List U16
  done : List Completion

/-- `drive` is the driver's turn: memory as it leaves it, and the heads it has published. -/
inductive QueueEvent where
  | drive (ram : Mem) (heads : List U16)
  | notify

def QueueSystem.start (dev : VirtioDev) (mem : BlkMem) : QueueSystem := ⟨dev, mem, [], []⟩

def QueueSystem.step [NetDevice] (s : QueueSystem) : QueueEvent → QueueSystem
  | .drive ram heads => { s with mem := { s.mem with ram := ram }, published := s.published ++ heads }
  | .notify =>
    let r := virtioMmioStore s.dev ramSize 0x050 qi s.mem
    { s with dev := r.2, mem := r.1, done := s.done ++ virtioBlkQueueTrace s.dev ramSize (qi.setWidth 32) s.mem }

def QueueSystem.run [NetDevice] (s : QueueSystem) (evs : List QueueEvent) : QueueSystem :=
  evs.foldl (QueueSystem.step qi ramSize) s

/-- The driver publishes `heads` behind those it published before, has at most `num` of them outstanding and leaves the
used ring to the device; what is outstanding is in the ring, and its buffers are apart from the queue. -/
structure Publishes (vq : VirtioQueue) (s : QueueSystem) (ram : Mem) (heads : List U16) : Prop where
  idx : vq.availIdx ram = BitVec.ofNat 16 (s.published ++ heads).length
  ring : Ring.Holds (vq.availHead ram) vq.num.toNat s.done.length (s.published ++ heads)
  room : (s.published ++ heads).length ≤ s.done.length + vq.num.toNat
  used : SameOn vq.InUsed s.mem.ram ram
  apart : ∀ x ∈ (s.published ++ heads).drop s.done.length, RequestApart vq ramSize ram x

/-- A turn that is none of a driver. -/
def Misdrives (vq : VirtioQueue) (s : QueueSystem) : QueueEvent → Prop
  | .drive ram heads => ¬ Publishes ramSize vq s ram heads
  | .notify => False

/-- A block device's queue that is set up and not yet used. -/
structure QueueReady (dev : VirtioDev) (ram : Mem) : Prop where
  blk : dev.device_id = virtioDevBlk
  index : qi < 4
  ready : (dev.queues (qi.setWidth 32)).ready ≠ 0
  laidOut : (dev.queues (qi.setWidth 32)).LaidOut ramSize
  last_avail : (dev.queues (qi.setWidth 32)).last_avail = 0
  avail : (dev.queues (qi.setWidth 32)).availIdx ram = 0
  used : (dev.queues (qi.setWidth 32)).usedIdx ram = 0

/-- The heads served so far are the first of those published, each once and in order, with one used element each. -/
structure ServesInOrder (vq : VirtioQueue) (s : QueueSystem) : Prop where
  order : s.done.map Completion.head <+: s.published
  used : UsedRing vq s.mem.ram s.done

/-- What the runs keep. -/
structure QueueOk (vq : VirtioQueue) (s : QueueSystem) : Prop extends ServesInOrder vq s where
  blk : s.dev.device_id = virtioDevBlk
  queue : s.dev.queues (qi.setWidth 32) = { vq with last_avail := BitVec.ofNat 16 s.done.length }
  idx : vq.availIdx s.mem.ram = BitVec.ofNat 16 s.published.length
  ring : Ring.Holds (vq.availHead s.mem.ram) vq.num.toNat s.done.length s.published
  room : s.published.length ≤ s.done.length + vq.num.toNat
  apart : ∀ x ∈ s.published.drop s.done.length, RequestApart vq ramSize s.mem.ram x

variable {qi ramSize}

theorem QueueOk.start {dev : VirtioDev} {mem : BlkMem} (h : QueueReady qi ramSize dev mem.ram) :
    QueueOk qi ramSize (dev.queues (qi.setWidth 32)) (.start dev mem) where
  order := List.nil_prefix
  used := { adds := fun _ _ hc => (by cases hc), ring := fun _ _ _ hx => (by cases hx), idx := h.used }
  blk := h.blk
  queue := by
    show dev.queues (qi.setWidth 32) = { dev.queues (qi.setWidth 32) with last_avail := 0 }
    rw [← h.last_avail]
  idx := h.avail
  ring := fun i x _ hx => by cases hx
  room := Nat.zero_le _
  apart := fun x hx => by cases hx

theorem QueueOk.drive [NetDevice] {vq : VirtioQueue} (hq : vq.LaidOut ramSize) {s : QueueSystem} (h : QueueOk qi ramSize vq s)
    {ram : Mem} {heads : List U16} (hp : Publishes ramSize vq s ram heads) :
    QueueOk qi ramSize vq (s.step qi ramSize (.drive ram heads)) where
  order := h.order.trans (List.prefix_append _ _)
  used := h.used.congr hq hp.used
  blk := h.blk
  queue := h.queue
  idx := hp.idx
  ring := hp.ring
  room := hp.room
  apart := hp.apart

/-- The heads the device has still to serve. -/
def QueueSystem.pending (s : QueueSystem) : List U16 := s.published.drop s.done.length

theorem QueueOk.pending {vq : VirtioQueue} {s : QueueSystem} (h : QueueOk qi ramSize vq s) :
    Pending vq ramSize s.mem.ram s.done.length s.pending := by
  refine ⟨fun i x hx => h.ring _ _ (Nat.le_add_right _ _) ?_, h.apart, h.used.idx⟩
  unfold QueueSystem.pending at hx
  rwa [List.getElem?_drop] at hx

theorem QueueOk.published_eq {vq : VirtioQueue} {s : QueueSystem} (h : QueueOk qi ramSize vq s) :
    s.published = s.done.map Completion.head ++ s.pending := by
  obtain ⟨rest, hrest⟩ := h.order
  have hlen : s.done.length = (s.done.map Completion.head).length := (List.length_map _).symm
  unfold QueueSystem.pending
  rw [← hrest, hlen, List.drop_left]

theorem QueueOk.pending_length {vq : VirtioQueue} {s : QueueSystem} (h : QueueOk qi ramSize vq s) :
    s.published.length = s.done.length + s.pending.length := by
  have := congrArg List.length h.published_eq
  rwa [List.length_append, List.length_map] at this

theorem virtioBlkProcessQueue_run {dev : VirtioDev} {i : U32} {mem : BlkMem} {avail : U16}
    (hgo : ¬ ((dev.queues i).ready = 0 ∨ (dev.queues i).desc_addr = 0))
    (hread : guestRead16 mem.ram ramSize ((dev.queues i).avail_addr + 2) 0 = (avail, true)) :
    let n := (avail - (dev.queues i).last_avail).toNat
    (virtioBlkProcessQueue dev ramSize i mem).1 = (virtioBlkLoop dev ramSize n mem (dev.queues i)).1 ∧
      (virtioBlkProcessQueue dev ramSize i mem).2.queues i = (virtioBlkLoop dev ramSize n mem (dev.queues i)).2 ∧
      (virtioBlkProcessQueue dev ramSize i mem).2.device_id = dev.device_id ∧
      virtioBlkQueueTrace dev ramSize i mem = virtioBlkTrace dev ramSize n mem (dev.queues i) := by
  unfold virtioBlkProcessQueue virtioBlkQueueTrace
  dsimp only
  rw [if_neg hgo, if_neg hgo, hread]
  refine ⟨rfl, ?_, ?_, rfl⟩
  · show (if _ then _ else _ : VirtioDev).queues i = _
    split <;> exact if_pos rfl
  · show (if _ then _ else _ : VirtioDev).device_id = _
    split <;> rfl

variable [NetDevice]

/-- **A notify serves every head that was pending.** -/
theorem QueueOk.notify_eq {vq : VirtioQueue} (hq : vq.LaidOut ramSize) (hqi : qi < 4) (hready : vq.ready ≠ 0)
    {s : QueueSystem} (h : QueueOk qi ramSize vq s) :
    (s.step qi ramSize .notify).mem = s.pending.foldl (serve s.dev vq ramSize) s.mem ∧
      (s.step qi ramSize .notify).done = s.done ++ passes s.dev vq ramSize s.mem s.pending ∧
      (s.step qi ramSize .notify).dev.device_id = s.dev.device_id ∧
      (s.step qi ramSize .notify).dev.queues (qi.setWidth 32) =
        { vq with last_avail := BitVec.ofNat 16 s.published.length } := by
  have hdesc : vq.desc_addr ≠ 0 := by
    intro h0
    have := hq.table.1
    rw [h0] at this
    exact absurd this (by decide)
  have hgo : ¬ ((s.dev.queues (qi.setWidth 32)).ready = 0 ∨ (s.dev.queues (qi.setWidth 32)).desc_addr = 0) := by
    rw [h.queue]
    exact fun hor => hor.elim hready hdesc
  have hread : guestRead16 s.mem.ram ramSize ((s.dev.queues (qi.setWidth 32)).avail_addr + 2) 0 =
      (BitVec.ofNat 16 s.published.length, true) := by
    rw [h.queue, ← h.idx]
    exact hq.read_availIdx s.mem.ram
  have hcount : (BitVec.ofNat 16 s.published.length - (s.dev.queues (qi.setWidth 32)).last_avail).toNat =
      s.pending.length := by
    have hlen := h.pending_length
    have := h.room
    have := hq.num_le
    rw [h.queue]
    exact (Ring.gap_ofNat (by omega) (by omega)).trans (by omega)
  have hnotify : virtioMmioStore s.dev ramSize 0x050 qi s.mem =
      virtioBlkProcessQueue s.dev ramSize (qi.setWidth 32) s.mem := by
    unfold virtioMmioStore virtioNotify
    rw [if_pos rfl, if_pos ⟨hqi, fun h0 => hgo (.inl h0)⟩, if_pos h.blk]
  obtain ⟨hmem, hqueue, hid, htrace⟩ := virtioBlkProcessQueue_run hgo hread
  obtain ⟨hloop, hpasses⟩ := virtioBlkLoop_serves s.dev hq s.pending s.done.length s.mem h.pending
  rw [hcount, h.queue] at hmem hqueue htrace
  rw [hloop] at hmem hqueue
  rw [hpasses] at htrace
  unfold QueueSystem.step
  dsimp only
  rw [hnotify, htrace, h.pending_length]
  exact ⟨hmem, rfl, hid, hqueue⟩

/-- **A notify keeps the invariant and leaves nothing pending.** -/
theorem QueueOk.notify {vq : VirtioQueue} (hq : vq.LaidOut ramSize) (hqi : qi < 4) (hready : vq.ready ≠ 0)
    {s : QueueSystem} (h : QueueOk qi ramSize vq s) :
    QueueOk qi ramSize vq (s.step qi ramSize .notify) ∧
      (s.step qi ramSize .notify).done.map Completion.head = s.published := by
  obtain ⟨hmem, hdone, hid, hqueue⟩ := h.notify_eq hq hqi hready
  obtain ⟨hused, hsame⟩ := passes_used s.dev hq s.pending s.done s.mem h.pending h.used
  have hheads : (s.step qi ramSize .notify).done.map Completion.head = s.published := by
    rw [hdone, List.map_append, passes_head, h.published_eq]
  have hlen : (s.step qi ramSize .notify).done.length = s.published.length := by
    rw [← hheads, List.length_map]
  have hpub : (s.step qi ramSize .notify).published = s.published := rfl
  refine ⟨{ order := ?_, used := ?_, blk := hid.trans h.blk, queue := ?_, idx := ?_, ring := ?_, room := ?_, apart := ?_ },
    hheads⟩
  · exact (hheads.trans hpub.symm) ▸ List.prefix_rfl
  · rw [hmem, hdone]
    exact hused
  · rw [hqueue, hlen]
  · rw [hmem, hpub, ← h.idx]
    exact hq.availIdx_same (hsame.mono fun a ha => .inr ha)
  · intro i x hi hx
    rw [hpub] at hx
    rw [hlen] at hi
    rw [List.getElem?_eq_none hi] at hx
    cases hx
  · rw [hpub, hlen]
    exact Nat.le_add_right _ _
  · rw [hpub, hlen, List.drop_length]
    intro x hx
    cases hx

theorem QueueOk.step {vq : VirtioQueue} (hq : vq.LaidOut ramSize) (hqi : qi < 4) (hready : vq.ready ≠ 0) (s : QueueSystem)
    (e : QueueEvent) (h : QueueOk qi ramSize vq s) (he : ¬ Misdrives ramSize vq s e) :
    QueueOk qi ramSize vq (s.step qi ramSize e) := by
  cases e with
  | drive ram heads => exact h.drive hq (not_not.1 he)
  | notify => exact (h.notify hq hqi hready).1

/-- **Every published head is served once, in order, with one used element each**, in every run of a device and a
driver that keeps to the ring, and a notify leaves no head behind. -/
theorem servesInOrder_of_driven (dev : VirtioDev) (mem : BlkMem) (hready : QueueReady qi ramSize dev mem.ram)
    (evs : List QueueEvent) (hdriven : Runs.Avoids (QueueSystem.step qi ramSize)
      (Misdrives ramSize (dev.queues (qi.setWidth 32))) (.start dev mem) evs) :
    Runs.Along (QueueSystem.step qi ramSize) (ServesInOrder (dev.queues (qi.setWidth 32))) (.start dev mem) evs ∧
      ∀ pre, pre ++ [.notify] <+: evs →
        ((QueueSystem.start dev mem).run qi ramSize (pre ++ [.notify])).done.map Completion.head =
          ((QueueSystem.start dev mem).run qi ramSize (pre ++ [.notify])).published := by
  have hok := Runs.along_of_avoids (QueueOk.step hready.laidOut hready.index hready.ready) (.start hready) hdriven
  refine ⟨hok.mono fun s hs => hs.toServesInOrder, fun pre hpre => ?_⟩
  have hbefore := hok pre ((List.prefix_append _ _).trans hpre)
  unfold QueueSystem.run
  rw [List.foldl_append]
  exact (hbefore.notify hready.laidOut hready.index hready.ready).2

end System

/-! ## A driver with two requests -/

section Driver

local instance queueNet : NetDevice := NetDevice.silent

def oneQueueDev : VirtioDev :=
  { virtioBlkInit 1 4096 with queues := fun _ => ⟨8, 1, ramBase, 0x80000800, 0x80000A00, 0⟩ }

/-- The request of `blkChain` before it is published. -/
def unpublished : BlkMem := ⟨(blkChain 0 0).write 0x802 2 0, fun _ => 0, none, [], ⟨0, 0⟩⟩

def publishedRam : Mem := unpublished.ram.write 0x802 2 1

theorem oneQueue_ready : QueueReady 0 0x10000 oneQueueDev unpublished.ram where
  blk := rfl
  index := by decide
  ready := by decide
  laidOut := {
    num := ⟨3, by decide, rfl⟩
    ram := by decide
    table := by unfold InRam; decide
    avail := by unfold InRam; decide
    used := by unfold InRam; decide
    table_avail := apart_ranges (by decide) (by decide) (by decide)
    table_used := apart_ranges (by decide) (by decide) (by decide)
    avail_used := apart_ranges (by decide) (by decide) (by decide) }
  last_avail := rfl
  avail := by decide +kernel
  used := by decide +kernel

/-- Header, data and status. -/
theorem oneRequest_chain :
    chain (oneQueueDev.queues 0) 0x10000 publishedRam (oneQueueDev.queues 0).num.toNat 0 = [0, 1, 2] := by decide +kernel

theorem oneRequest_desc2 : (descAt (oneQueueDev.queues 0) 0x10000 publishedRam 2).addr = 0x80000400 ∧
    (descAt (oneQueueDev.queues 0) 0x10000 publishedRam 2).len = 1 := by decide +kernel

/-- The buffers lie between the table and the available ring. -/
theorem oneQueue_free {a : U64} (h : 0x80000100 ≤ a.toNat ∧ a.toNat < 0x80000800) : ¬ (oneQueueDev.queues 0).InRings a := by
  have htable : (oneQueueDev.queues 0).InTable a ↔ _ := within_iff (by decide)
  have havail : (oneQueueDev.queues 0).InAvail a ↔ _ := within_iff (by decide)
  have hused : (oneQueueDev.queues 0).InUsed a ↔ _ := within_iff (by decide)
  have h1 : (oneQueueDev.queues 0).desc_addr.toNat + 16 * (oneQueueDev.queues 0).num.toNat = 0x80000080 := rfl
  have h2 : (oneQueueDev.queues 0).avail_addr.toNat = 0x80000800 := rfl
  have h3 : (oneQueueDev.queues 0).used_addr.toNat = 0x80000A00 := rfl
  unfold VirtioQueue.InRings
  rw [htable, havail, hused]
  omega

/-- A request that keeps to the free part of its page. -/
def FreeRequest (ram : Mem) (head : U16) (is : List U16) : Prop :=
  chain (oneQueueDev.queues 0) 0x10000 ram (oneQueueDev.queues 0).num.toNat head = is ∧
    ∀ i ∈ is, i.toNat < (oneQueueDev.queues 0).num.toNat ∧
      0x80000100 ≤ (descAt (oneQueueDev.queues 0) 0x10000 ram i).addr.toNat ∧
      (descAt (oneQueueDev.queues 0) 0x10000 ram i).addr.toNat +
        max 1 (descAt (oneQueueDev.queues 0) 0x10000 ram i).len.toNat ≤ 0x80000800

instance (ram : Mem) (head : U16) (is : List U16) : Decidable (FreeRequest ram head is) :=
  @instDecidableAnd _ _ inferInstance (List.decidableBAll _ is)

theorem FreeRequest.apart {ram : Mem} {head : U16} {is : List U16} (h : FreeRequest ram head is) :
    RequestApart (oneQueueDev.queues 0) 0x10000 ram head := by
  obtain ⟨hchain, hfree⟩ := h
  have hbuffer : ∀ i ∈ is, ∀ a, Within (descAt (oneQueueDev.queues 0) 0x10000 ram i).addr
      (max 1 (descAt (oneQueueDev.queues 0) 0x10000 ram i).len.toNat) a → ¬ (oneQueueDev.queues 0).InRings a := by
    intro i hi a ha
    obtain ⟨-, hlo, hhi⟩ := hfree i hi
    have ha := (within_iff (by omega)).1 ha
    exact oneQueue_free ⟨by omega, by omega⟩
  subst hchain
  refine ⟨⟨fun i hi => (hfree i hi).1, fun i hi a ha => hbuffer i hi a ?_⟩, fun i hi =>
    hbuffer i (List.mem_of_getLast? hi) _ ?_⟩
  · exact Nat.lt_of_lt_of_le ha (Nat.le_max_right _ _)
  · unfold Within
    rw [BitVec.sub_self]
    exact Nat.lt_of_lt_of_le Nat.zero_lt_one (Nat.le_max_left _ _)

theorem oneRequest_apart : RequestApart (oneQueueDev.queues 0) 0x10000 publishedRam 0 :=
  have hfree : FreeRequest publishedRam 0 [0, 1, 2] := by decide +kernel
  hfree.apart

/-- A write of sector 0 at descriptor 0 and a read of it at descriptor 3, with nothing published. -/
def twoRequests : BlkMem :=
  let desc (m : Mem) (i addr len flags next : U64) : Mem :=
    (((m.write (16 * i) 8 addr).write (16 * i + 8) 4 len).write (16 * i + 12) 2 flags).write (16 * i + 14) 2 next
  let m := desc (desc (desc (blkChain 1 0) 3 0x80000410 16 1 4) 4 0x80000500 512 3 5) 5 0x80000401 1 2 0
  ⟨(m.write 0x200 8 0xABCD).write 0x802 2 0, fun _ => 0, none, [], ⟨0, 0⟩⟩

/-- The driver leaves the used ring as it finds it, and the rest of memory as `ram`. -/
def QueueSystem.leave (s : QueueSystem) (ram : Mem) : Mem := ram.copy 0xA00 s.mem.ram 0xA00 0x100

/-- The write and the read are published together. -/
def firstBatch : Mem := ((twoRequests.ram.write 0x804 2 0).write 0x806 2 3).write 0x802 2 2

def firstServed : QueueSystem := (QueueSystem.start oneQueueDev twoRequests).run 0 0x10000 [.drive firstBatch [0, 3], .notify]

/-- Then both again, the read first. -/
def secondBatch : Mem := firstServed.leave (((firstBatch.write 0x808 2 3).write 0x80A 2 0).write 0x802 2 4)

def twoBatches : List QueueEvent := [.drive firstBatch [0, 3], .notify, .drive secondBatch [3, 0], .notify]

theorem twoRequests_ready : QueueReady 0 0x10000 oneQueueDev twoRequests.ram :=
  { oneQueue_ready with avail := by decide +kernel, used := by decide +kernel }

theorem inUsed_offset {a : U64} (ha : (oneQueueDev.queues 0).InUsed a) :
    0xA00 ≤ (a - ramBase).toNat ∧ (a - ramBase).toNat < 0xB00 := by
  have hin := (within_iff (by decide)).1 ha
  have hb : ramBase.toNat = 0x80000000 := rfl
  have hu : (oneQueueDev.queues 0).used_addr.toNat = 0x80000A00 := rfl
  have hn : (oneQueueDev.queues 0).num.toNat = 8 := rfl
  rw [hu, hn] at hin
  rw [BitVec.toNat_sub]
  omega

theorem leave_used (s : QueueSystem) (ram : Mem) : SameOn (oneQueueDev.queues 0).InUsed s.mem.ram (s.leave ram) := by
  intro a ha
  obtain ⟨hlo, hhi⟩ := inUsed_offset ha
  have hoff : (0xA00 : U64).toNat = 0xA00 := rfl
  have hlt : (a - ramBase - 0xA00).toNat < 0x100 := by
    rw [BitVec.toNat_sub]
    omega
  show s.leave ram (a - ramBase) = s.mem.ram (a - ramBase)
  unfold QueueSystem.leave
  rw [Mem.copy_of_lt _ _ _ _ _ _ hlt]
  congr 1
  bv_omega

/-- A write below the used ring leaves it alone. -/
theorem write_used (m : Mem) {off : U64} {n : Nat} (v : U64) (h : off.toNat + n ≤ 0xA00) :
    SameOn (oneQueueDev.queues 0).InUsed m (m.write off n v) := by
  intro a ha
  obtain ⟨hlo, -⟩ := inUsed_offset ha
  refine Mem.write_of_le _ _ _ _ _ ?_
  rw [BitVec.toNat_sub]
  omega

/-- The driver's first turn. -/
theorem firstBatch_published :
    Publishes 0x10000 (oneQueueDev.queues 0) (.start oneQueueDev twoRequests) firstBatch [0, 3] := by
  have hfree : FreeRequest firstBatch 0 [0, 1, 2] ∧ FreeRequest firstBatch 3 [3, 4, 5] := by decide +kernel
  refine ⟨by decide +kernel, fun i x _ hx => ?_, by decide, ?_, ?_⟩
  · rcases i with _ | _ | i
    · obtain rfl : (0 : U16) = x := Option.some.inj hx
      decide +kernel
    · obtain rfl : (3 : U16) = x := Option.some.inj hx
      decide +kernel
    · cases hx
  · exact (write_used _ _ (by decide)).trans ((write_used _ _ (by decide)).trans (write_used _ _ (by decide)))
  · exact List.forall_mem_cons.2 ⟨hfree.1.apart, List.forall_mem_singleton.2 hfree.2.apart⟩

/-- The driver's second turn, when the device has served both. -/
theorem secondBatch_published : Publishes 0x10000 (oneQueueDev.queues 0) firstServed secondBatch [3, 0] := by
  have hfree : FreeRequest secondBatch 3 [3, 4, 5] ∧ FreeRequest secondBatch 0 [0, 1, 2] := by decide +kernel
  have hpublished : firstServed.published = [0, 3] := rfl
  have hdone : firstServed.done.length = 2 := by decide +kernel
  refine ⟨?_, fun i x hi hx => ?_, ?_, leave_used _ _, ?_⟩
  · rw [hpublished]
    decide +kernel
  · rw [hdone] at hi
    rw [hpublished] at hx
    rcases i with _ | _ | _ | _ | i
    · omega
    · omega
    · obtain rfl : (3 : U16) = x := Option.some.inj hx
      decide +kernel
    · obtain rfl : (0 : U16) = x := Option.some.inj hx
      decide +kernel
    · cases hx
  · rw [hpublished, hdone]
    decide
  · rw [hpublished, hdone]
    exact List.forall_mem_cons.2 ⟨hfree.1.apart, List.forall_mem_singleton.2 hfree.2.apart⟩

theorem servesInOrder_batches :
    Runs.Along (QueueSystem.step 0 0x10000) (ServesInOrder (oneQueueDev.queues 0)) (.start oneQueueDev twoRequests)
        twoBatches ∧
      ∀ pre, pre ++ [.notify] <+: twoBatches →
        ((QueueSystem.start oneQueueDev twoRequests).run 0 0x10000 (pre ++ [.notify])).done.map Completion.head =
          ((QueueSystem.start oneQueueDev twoRequests).run 0 0x10000 (pre ++ [.notify])).published := by
  refine servesInOrder_of_driven oneQueueDev twoRequests twoRequests_ready twoBatches ?_
  refine (Runs.avoids_cons _ _).2 ⟨not_not.2 firstBatch_published, (Runs.avoids_cons _ _).2 ⟨id, ?_⟩⟩
  exact (Runs.avoids_cons _ _).2 ⟨not_not.2 secondBatch_published, (Runs.avoids_cons _ _).2 ⟨id, Runs.avoids_nil⟩⟩

end Driver

end PgLinux
