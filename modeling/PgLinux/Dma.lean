import PgLinux.Virtio
/-!
# Dma — what the device may touch for the guest

`guest_read` and `guest_write` compare `addr + len` with the end of RAM in 64-bit arithmetic.  The interval of the
specification is taken in `Nat`; the two differ exactly where the sum wraps and lands below the end of RAM.
-/
namespace PgLinux

/-- The `len` bytes at `addr`, counted without wraparound, are guest RAM. -/
def InGuestRam (ramSize addr len : U64) : Prop :=
  ramBase.toNat ≤ addr.toNat ∧ addr.toNat + len.toNat ≤ ramBase.toNat + ramSize.toNat

/-- A transfer that is let through, and stays in guest RAM. -/
def DmaReaches (ramSize addr len : U64) : Prop := guestInBounds ramSize addr len = true ∧ InGuestRam ramSize addr len

instance (ramSize addr len : U64) : Decidable (DmaReaches ramSize addr len) := inferInstanceAs (Decidable (_ ∧ _ ∧ _))

/-- A transfer of `len` bytes at `addr` succeeds only inside guest RAM, and one that fails touches no byte. -/
structure DmaConfined (ramSize addr len : U64) : Prop where
  read_inRam : ∀ ram buf off, (guestRead ram ramSize addr buf off len).2 = true → InGuestRam ramSize addr len
  read_fail : ∀ ram buf off, (guestRead ram ramSize addr buf off len).2 = false →
    (guestRead ram ramSize addr buf off len).1 = buf
  write_inRam : ∀ ram buf off, (guestWrite ram ramSize addr buf off len).2 = true → InGuestRam ramSize addr len
  write_fail : ∀ ram buf off, (guestWrite ram ramSize addr buf off len).2 = false →
    (guestWrite ram ramSize addr buf off len).1 = ram

/-- The end of the interval wraps past 2^64 and lands at or below the end of RAM. -/
def EndWrapsIntoRam (ramSize addr len : U64) : Prop :=
  ramBase.toNat ≤ addr.toNat ∧ ramBase.toNat + ramSize.toNat < 2 ^ 64 ∧
  2 ^ 64 ≤ addr.toNat + len.toNat ∧ addr.toNat + len.toNat - 2 ^ 64 ≤ ramBase.toNat + ramSize.toNat

theorem guestRead_snd (ram : Mem) (ramSize addr : U64) (buf : Mem) (off len : U64) :
    (guestRead ram ramSize addr buf off len).2 = guestInBounds ramSize addr len := by
  unfold guestRead
  cases guestInBounds ramSize addr len <;> rfl

theorem guestWrite_snd (ram : Mem) (ramSize addr : U64) (buf : Mem) (off len : U64) :
    (guestWrite ram ramSize addr buf off len).2 = guestInBounds ramSize addr len := by
  unfold guestWrite
  cases guestInBounds ramSize addr len <;> rfl

/-- **A refused read copies nothing.** -/
theorem guestRead_fail (ram : Mem) (ramSize addr : U64) (buf : Mem) (off len : U64)
    (h : (guestRead ram ramSize addr buf off len).2 = false) : (guestRead ram ramSize addr buf off len).1 = buf := by
  rw [guestRead_snd] at h
  unfold guestRead
  rw [h]
  rfl

/-- **A refused write copies nothing.** -/
theorem guestWrite_fail (ram : Mem) (ramSize addr : U64) (buf : Mem) (off len : U64)
    (h : (guestWrite ram ramSize addr buf off len).2 = false) : (guestWrite ram ramSize addr buf off len).1 = ram := by
  rw [guestWrite_snd] at h
  unfold guestWrite
  rw [h]
  rfl

/-- **The bound check in `Nat`**: both sums are taken modulo 2^64. -/
theorem guestInBounds_iff (ramSize addr len : U64) : guestInBounds ramSize addr len = true ↔
    ramBase.toNat ≤ addr.toNat ∧
    (addr.toNat + len.toNat) % 2 ^ 64 ≤ (ramBase.toNat + ramSize.toNat) % 2 ^ 64 := by
  unfold guestInBounds
  rw [Bool.and_eq_true, decide_eq_true_iff, decide_eq_true_iff, BitVec.le_def, BitVec.le_def, BitVec.toNat_add,
    BitVec.toNat_add]

/-- **The check admits an interval outside RAM exactly when its end wraps into RAM.** -/
theorem guestInBounds_outside_iff (ramSize addr len : U64) :
    (guestInBounds ramSize addr len = true ∧ ¬ InGuestRam ramSize addr len) ↔ EndWrapsIntoRam ramSize addr len := by
  rw [guestInBounds_iff]
  unfold InGuestRam EndWrapsIntoRam
  have hb : ramBase.toNat = 2147483648 := by decide
  have ha := addr.isLt
  have hl := len.isLt
  have hr := ramSize.isLt
  rw [hb]
  omega

/-- **Virtio transfers stay in guest RAM exactly when the end of the interval does not wrap back into RAM.** -/
theorem dmaConfined_iff (ramSize addr len : U64) : DmaConfined ramSize addr len ↔ ¬ EndWrapsIntoRam ramSize addr len := by
  rw [← guestInBounds_outside_iff]
  constructor
  · rintro hc ⟨hin, hout⟩
    exact hout (hc.read_inRam (fun _ => 0) (fun _ => 0) 0 (by rw [guestRead_snd]; exact hin))
  · intro hw
    have hin : guestInBounds ramSize addr len = true → InGuestRam ramSize addr len := by
      intro h
      by_contra hout
      exact hw ⟨h, hout⟩
    exact {
      read_inRam := fun ram buf off h => hin (by rwa [guestRead_snd] at h)
      read_fail := fun ram buf off h => guestRead_fail ram ramSize addr buf off len h
      write_inRam := fun ram buf off h => hin (by rwa [guestWrite_snd] at h)
      write_fail := fun ram buf off h => guestWrite_fail ram ramSize addr buf off len h }

/-- One byte at the last address of the 64-bit space, as a descriptor may name it, with 2 GiB of RAM. -/
theorem not_dmaConfined_last_byte : ¬ DmaConfined 0x80000000 0xFFFFFFFFFFFFFFFF 1 := by
  intro hc
  have hin := hc.write_inRam (fun _ => 0) (fun _ => 0) 0 (by rw [guestWrite_snd]; decide)
  revert hin
  unfold InGuestRam
  decide

end PgLinux
