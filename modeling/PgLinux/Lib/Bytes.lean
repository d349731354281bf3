import Mathlib.Algebra.GroupWithZero.Nat
import Mathlib.Tactic.Common
/-!
# Bytes — a byte memory over 64-bit addresses

A `Mem` is every byte a 64-bit pointer difference can name.  Addresses wrap as the hardware's do, so a copy that runs
past the top of the address space comes back at the bottom.  `read` is the little-endian number at an address, `write`
stores one, and `copy` is `memcpy`.
-/
namespace PgLinux

abbrev Mem := BitVec 64 → BitVec 8

/-- The `n` bytes at `a`, as a little-endian number. -/
def Mem.read (m : Mem) (a : BitVec 64) : Nat → BitVec 64
  | 0     => 0
  | n + 1 => (m a).setWidth 64 ||| Mem.read m (a + 1#64) n <<< 8

/-- Byte `i` of a number. -/
def byteOf (v : BitVec 64) (i : Nat) : BitVec 8 := (v >>> (8 * i)).setWidth 8

/-- The low `n` bytes of `v` stored at `a`. -/
def Mem.write (m : Mem) (a : BitVec 64) (n : Nat) (v : BitVec 64) : Mem := fun b =>
  if (b - a).toNat < n then byteOf v (b - a).toNat else m b

/-- `memcpy`: `n` bytes at `s` in `src`, copied to `d`. -/
def Mem.copy (dst : Mem) (d : BitVec 64) (src : Mem) (s : BitVec 64) (n : Nat) : Mem := fun b =>
  if (b - d).toNat < n then src (s + (b - d)) else dst b

theorem Mem.read_shift {m m' : Mem} : ∀ (n : Nat) (a b : BitVec 64),
    (∀ i, i < n → m (a + BitVec.ofNat 64 i) = m' (b + BitVec.ofNat 64 i)) → m.read a n = m'.read b n
  | 0, _, _, _ => rfl
  | n + 1, a, b, h => by
    have h0 : m a = m' b := by simpa using h 0 (by omega)
    have ht : m.read (a + 1#64) n = m'.read (b + 1#64) n := by
      refine Mem.read_shift n (a + 1#64) (b + 1#64) (fun i hi => ?_)
      have := h (i + 1) (by omega)
      rwa [BitVec.ofNat_add, BitVec.add_comm (BitVec.ofNat 64 i), ← BitVec.add_assoc, ← BitVec.add_assoc] at this
    unfold Mem.read
    rw [h0, ht]

theorem Mem.read_one (m : Mem) (a : BitVec 64) : m.read a 1 = (m a).setWidth 64 := by
  show (m a).setWidth 64 ||| 0 <<< 8 = _
  simp

theorem Mem.read_zero : ∀ (n : Nat) (a : BitVec 64), Mem.read (fun _ => 0) a n = 0
  | 0, _ => rfl
  | n + 1, a => by
    unfold Mem.read
    rw [Mem.read_zero n]
    rfl

theorem Mem.read_congr {m m' : Mem} (n : Nat) (a : BitVec 64)
    (h : ∀ i, i < n → m (a + BitVec.ofNat 64 i) = m' (a + BitVec.ofNat 64 i)) : m.read a n = m'.read a n :=
  Mem.read_shift n a a h

theorem Mem.write_of_lt (m : Mem) (a b : BitVec 64) (n : Nat) (v : BitVec 64) (h : (b - a).toNat < n) :
    m.write a n v b = byteOf v (b - a).toNat := if_pos h

/-- **A store changes no byte outside its range.** -/
theorem Mem.write_of_le (m : Mem) (a b : BitVec 64) (n : Nat) (v : BitVec 64) (h : n ≤ (b - a).toNat) :
    m.write a n v b = m b := if_neg (by omega)

theorem Mem.copy_of_lt (m src : Mem) (d s b : BitVec 64) (n : Nat) (h : (b - d).toNat < n) :
    m.copy d src s n b = src (s + (b - d)) := if_pos h

/-- **A copy changes no byte outside its target range.** -/
theorem Mem.copy_of_le (m src : Mem) (d s b : BitVec 64) (n : Nat) (h : n ≤ (b - d).toNat) :
    m.copy d src s n b = m b := if_neg (by omega)

theorem Mem.copy_zero (m src : Mem) (b : BitVec 64) (n : Nat) (h : b.toNat < n) : m.copy 0 src 0 n b = src b := by
  have hsub : b - 0 = b := BitVec.sub_zero b
  rw [Mem.copy_of_lt _ _ _ _ _ _ (hsub.symm ▸ h), hsub]
  exact congrArg src (BitVec.zero_add b)

theorem add_sub_self (a : BitVec 64) (i : Nat) : a + BitVec.ofNat 64 i - a = BitVec.ofNat 64 i := by
  rw [BitVec.add_comm, BitVec.add_sub_cancel]

/-- **Copied bytes read as the number they are at the source.** -/
theorem Mem.read_copy (m src : Mem) (d s : BitVec 64) (n : Nat) (hn : n < 2 ^ 64) :
    (m.copy d src s n).read d n = src.read s n := by
  refine Mem.read_shift n d s fun i hi => ?_
  have hlt : (d + BitVec.ofNat 64 i - d).toNat < n := by
    rw [add_sub_self, BitVec.toNat_ofNat, Nat.mod_eq_of_lt (by omega)]
    exact hi
  rw [Mem.copy_of_lt _ _ _ _ _ _ hlt, add_sub_self]

theorem byteOf_getLsbD (v : BitVec 64) (i j : Nat) : (byteOf v i).getLsbD j = (decide (j < 8) && v.getLsbD (8 * i + j)) := by
  simp [byteOf, BitVec.getLsbD_setWidth, BitVec.getLsbD_ushiftRight]

/-- **Bit `j` of the number read is bit `j % 8` of byte `j / 8`.** -/
theorem Mem.read_getLsbD (m : Mem) : ∀ (n : Nat) (a : BitVec 64) (j : Nat), j < 64 →
    (m.read a n).getLsbD j = (decide (j < 8 * n) && (m (a + BitVec.ofNat 64 (j / 8))).getLsbD (j % 8))
  | 0, a, j, _ => by simp [Mem.read]
  | n + 1, a, j, hj => by
    unfold Mem.read
    rw [BitVec.getLsbD_or, BitVec.getLsbD_setWidth, BitVec.getLsbD_shiftLeft]
    rcases Nat.lt_or_ge j 8 with h8 | h8
    · have : j / 8 = 0 := by omega
      have : j % 8 = j := by omega
      have : j < 8 * (n + 1) := by omega
      simp [*]
    · rw [Mem.read_getLsbD m n (a + 1#64) (j - 8) (by omega)]
      have hlow : (m a).getLsbD j = false := BitVec.getLsbD_of_ge _ _ h8
      have hmod : (j - 8) % 8 = j % 8 := by omega
      have hdiv : a + 1#64 + BitVec.ofNat 64 ((j - 8) / 8) = a + BitVec.ofNat 64 (j / 8) := by
        have : j / 8 = 1 + (j - 8) / 8 := by omega
        rw [this, BitVec.ofNat_add, ← BitVec.add_assoc]
      have hlt : decide (j - 8 < 8 * n) = decide (j < 8 * (n + 1)) := by
        simp only [decide_eq_decide]; omega
      have hnot : ¬ j < 8 := by omega
      simp [hlow, hmod, hdiv, hlt, hj, hnot]

/-- **Bytes just stored read back as the low bytes of the number stored.** -/
theorem Mem.read_write_same (m : Mem) (a v : BitVec 64) (n j : Nat) (hj : j < 64) :
    ((m.write a n v).read a n).getLsbD j = (decide (j < 8 * n) && v.getLsbD j) := by
  rw [Mem.read_getLsbD _ _ _ _ hj]
  by_cases hjn : j < 8 * n
  · have hd : (a + BitVec.ofNat 64 (j / 8) - a).toNat = j / 8 := by
      rw [BitVec.add_comm, BitVec.add_sub_cancel, BitVec.toNat_ofNat]
      omega
    rw [Mem.write_of_lt _ _ _ _ _ (by omega), hd, byteOf_getLsbD]
    have h2 : j % 8 < 8 := Nat.mod_lt _ (by decide)
    have h3 : 8 * (j / 8) + j % 8 = j := by omega
    simp [hjn, h2, h3]
  · simp [hjn]

/-- **A number of `n` bytes reads back.** -/
theorem Mem.read_num {w : Nat} (n : Nat) (hw : w = 8 * n) (hn : n ≤ 8) (m : Mem) (a : BitVec 64) (v : BitVec w) :
    ((m.write a n (v.setWidth 64)).read a n).setWidth w = v := by
  apply BitVec.eq_of_getLsbD_eq
  intro i hi
  rw [BitVec.getLsbD_setWidth, Mem.read_write_same _ _ _ _ _ (by omega), BitVec.getLsbD_setWidth]
  have hin : i < 8 * n := by omega
  have h64 : i < 64 := by omega
  simp [hi, hin, h64]

/-- A 64-bit word reads back. -/
theorem Mem.read_dword (m : Mem) (a v : BitVec 64) : (m.write a 8 v).read a 8 = v := by
  have h := Mem.read_num 8 rfl (by decide) m a v
  rwa [BitVec.setWidth_eq, BitVec.setWidth_eq] at h

/-- A 32-bit word reads back. -/
theorem Mem.read_word (m : Mem) (a : BitVec 64) (w : BitVec 32) : ((m.write a 4 (w.setWidth 64)).read a 4).setWidth 32 = w :=
  Mem.read_num 4 rfl (by decide) m a w

/-- **A read outside a store's range sees the old bytes.** -/
theorem Mem.read_write_of_disjoint (m : Mem) (a b v : BitVec 64) (n k : Nat)
    (h : ∀ i, i < k → n ≤ (b + BitVec.ofNat 64 i - a).toNat) : (m.write a n v).read b k = m.read b k :=
  Mem.read_congr k b (fun i hi => Mem.write_of_le m a _ n v (h i hi))

end PgLinux
