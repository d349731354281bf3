import PgLinux.CpuLayout
import PgLinux.Mmu
/-!
# Arm64Memory — a CPU and its RAM in the memory of the host

Compiled code finds the CPU at `base`, its fields where the C structure has them, and guest RAM at `ram`.  The pointers of
the TLB are addresses of the host there, and offsets into guest RAM in the model.
-/
namespace PgLinux
namespace Arm64

open CpuLayout

/-! ## Places -/

def byteAt (base : U64) (n : Nat) : U64 := base + BitVec.ofNat 64 n

def regOff (i : BitVec 5) : Nat := cpuFields.offsetOf "x" + u64.size * i.toNat
def entryOff (i : BitVec 12) : Nat := cpuFields.offsetOf "tlb" + (CLayout.struct tlbEntryFields).size * i.toNat

def hostPointer (ram : U64) : Option U64 → U64
  | none => 0
  | some h => ram + h

def flagByte (b : Bool) : U8 := if b then 1 else 0

/-- The entry `te` at `a`. -/
structure EntryAt (ram : U64) (m : Mem) (a : U64) (te : TlbEntry) : Prop where
  vpn : m.read (byteAt a (tlbEntryFields.offsetOf "vpn")) 8 = te.vpn
  ppn : m.read (byteAt a (tlbEntryFields.offsetOf "ppn")) 8 = te.ppn
  host_base : m.read (byteAt a (tlbEntryFields.offsetOf "host_base")) 8 = hostPointer ram te.host_base
  perm : m (byteAt a (tlbEntryFields.offsetOf "perm")) = te.perm
  level : m (byteAt a (tlbEntryFields.offsetOf "level")) = te.level
  dirty : m (byteAt a (tlbEntryFields.offsetOf "dirty")) = flagByte te.dirty
  valid : m (byteAt a (tlbEntryFields.offsetOf "valid")) = flagByte te.valid

/-- The memory `m` holds the registers, the pc, the TLB and the RAM of `c`. -/
structure Represents (base ram : U64) (m : Mem) (c : Cpu) : Prop where
  x : ∀ i, m.read (byteAt base (regOff i)) 8 = c.x i
  pc : m.read (byteAt base (cpuFields.offsetOf "pc")) 8 = c.pc
  tlb : ∀ i, EntryAt ram m (byteAt base (entryOff i)) (c.tlb i)
  ram : ∀ p, p < c.ram_size → m (ram + p) = c.bus.mem.ram p

/-- What a C program has of its objects, and the emulator of its own: RAM stands apart from the structure and not at NULL,
x0 is zero, and the pointers of the TLB are to pages of RAM. -/
structure Placed (base ram : U64) (c : Cpu) : Prop where
  apart : ∀ n p, n < offExec → p < c.ram_size → byteAt base n ≠ ram + p
  nonNull : ∀ p, p < c.ram_size → ram + p ≠ 0
  zero : c.x 0 = 0
  pages : ∀ i h, (c.tlb i).host_base = some h → h.toNat + 4096 ≤ c.ram_size.toNat

/-! ## The offsets the compiler writes -/

theorem regOff_eq (i : BitVec 5) : regOff i = 8 * i.toNat := by
  have hx : cpuFields.offsetOf "x" = 0 := by decide +kernel
  unfold regOff
  rw [hx, Nat.zero_add]
  rfl

theorem entryOff_eq (i : BitVec 12) : entryOff i = 888 + 32 * i.toNat := by
  have htlb : cpuFields.offsetOf "tlb" = 888 := by decide +kernel
  have hsize : (CLayout.struct tlbEntryFields).size = 32 := by decide +kernel
  unfold entryOff
  rw [htlb, hsize]

theorem offsetOf_pc : cpuFields.offsetOf "pc" = 256 := by decide +kernel

theorem le_offExec : 131960 ≤ offExec := by decide +kernel

theorem tlbEntry_offsets : tlbEntryFields.offsetOf "vpn" = 0 ∧ tlbEntryFields.offsetOf "ppn" = 8 ∧
    tlbEntryFields.offsetOf "host_base" = 16 ∧ tlbEntryFields.offsetOf "perm" = 24 ∧
    tlbEntryFields.offsetOf "level" = 25 ∧ tlbEntryFields.offsetOf "dirty" = 26 ∧
    tlbEntryFields.offsetOf "valid" = 27 := by decide +kernel

theorem byteAt_byteAt (base : U64) (n k : Nat) : byteAt (byteAt base n) k = byteAt base (n + k) := by
  unfold byteAt
  rw [BitVec.add_assoc, BitVec.ofNat_add]

/-! ## Bytes a store leaves alone -/

section Stores

variable {base ram : U64} {m m' : Mem} {c : Cpu}

theorem read_byteAt {a n : Nat} (h : ∀ k, a ≤ k → k < a + n → m' (byteAt base k) = m (byteAt base k)) :
    m'.read (byteAt base a) n = m.read (byteAt base a) n := by
  refine Mem.read_congr n _ fun i hi => ?_
  have hk := h (a + i) (by omega) (by omega)
  rwa [← byteAt_byteAt] at hk

theorem EntryAt.same {a : U64} {te : TlbEntry} (h : EntryAt ram m a te)
    (hm : ∀ k, k < 32 → m' (byteAt a k) = m (byteAt a k)) : EntryAt ram m' a te := by
  obtain ⟨hvpn, hppn, hhost, hperm, hlevel, hdirty, hvalid⟩ := tlbEntry_offsets
  have hread : ∀ o, o ≤ 24 → m'.read (byteAt a o) 8 = m.read (byteAt a o) 8 := fun o ho =>
    read_byteAt fun k _ hk => hm k (by omega)
  refine ⟨?_, ?_, ?_, ?_, ?_, ?_, ?_⟩
  · rw [hread _ (by omega), h.vpn]
  · rw [hread _ (by omega), h.ppn]
  · rw [hread _ (by omega), h.host_base]
  · rw [hm _ (by omega), h.perm]
  · rw [hm _ (by omega), h.level]
  · rw [hm _ (by omega), h.dirty]
  · rw [hm _ (by omega), h.valid]

/-- A store into the structure, seen from another byte of it. -/
theorem write_byteAt {o n k : Nat} (v : U64) (h : k < o ∨ o + n ≤ k) (hk : k < 2 ^ 32) (ho : o + n < 2 ^ 32) :
    (m.write (byteAt base o) n v) (byteAt base k) = m (byteAt base k) := by
  refine Mem.write_of_le _ _ _ _ _ ?_
  unfold byteAt
  bv_omega

/-- A store into the structure, seen from RAM. -/
theorem Placed.write_ram (hp : Placed base ram c) {o n : Nat} (v : U64) (ho : o + n ≤ offExec) {p : U64}
    (h : p < c.ram_size) : (m.write (byteAt base o) n v) (ram + p) = m (ram + p) := by
  refine Mem.write_of_le _ _ _ _ _ (Nat.not_lt.1 fun hin => ?_)
  refine hp.apart (o + (ram + p - byteAt base o).toNat) p (by omega) h ?_
  rw [← byteAt_byteAt, byteAt, BitVec.ofNat_toNat, BitVec.setWidth_eq, BitVec.add_comm, BitVec.sub_add_cancel]

/-- A store into RAM, seen from the structure. -/
theorem Placed.ram_write (hp : Placed base ram c) {n k : Nat} {p : U64} (v : U64) (hn : p.toNat + n ≤ c.ram_size.toNat)
    (hk : k < offExec) : (m.write (ram + p) n v) (byteAt base k) = m (byteAt base k) := by
  refine Mem.write_of_le _ _ _ _ _ (Nat.not_lt.1 fun hin => ?_)
  refine hp.apart k (p + (byteAt base k - (ram + p))) hk ?_ ?_
  · rw [BitVec.lt_def, BitVec.toNat_add, Nat.mod_eq_of_lt (by have := c.ram_size.isLt; omega)]
    omega
  · rw [← BitVec.add_assoc, BitVec.add_comm, BitVec.sub_add_cancel]

theorem Represents.setPc (h : Represents base ram m c) (hp : Placed base ram c) (pc : U64) :
    Represents base ram (m.write (byteAt base 256) 8 pc) { c with pc := pc } where
  x i := by
    have hoff := regOff_eq i
    exact (read_byteAt fun k _ hk => write_byteAt _ (.inl (by omega)) (by omega) (by omega)).trans (h.x i)
  pc := by
    rw [offsetOf_pc]
    exact Mem.read_dword ..
  tlb i := by
    refine (h.tlb i).same fun k hk => ?_
    rw [byteAt_byteAt, entryOff_eq]
    exact write_byteAt _ (.inr (by omega)) (by omega) (by omega)
  ram p hlt := (hp.write_ram _ (by have := le_offExec; omega) hlt).trans (h.ram p hlt)

theorem Represents.setReg (h : Represents base ram m c) (hp : Placed base ram c) {rd : BitVec 5} (hrd : rd ≠ 0) (v : U64) :
    Represents base ram (m.write (byteAt base (8 * rd.toNat)) 8 v) (c.wr rd v) where
  x i := by
    have hoff := regOff_eq i
    by_cases hi : i = rd
    · subst hi
      rw [hoff, wr_self c hrd]
      exact Mem.read_dword ..
    · have hne : i.toNat ≠ rd.toNat := fun e => hi (BitVec.eq_of_toNat_eq e)
      have hx : (c.wr rd v).x i = c.x i := by
        rw [wr_x, if_neg hi]
        exact ite_eq_right_iff.2 fun h0 => (h0 ▸ hp.zero).symm
      rw [hx]
      exact (read_byteAt fun k _ hk => write_byteAt _ (by omega) (by omega) (by omega)).trans (h.x i)
  pc := by
    have hoff := offsetOf_pc
    exact (read_byteAt fun k _ hk => write_byteAt _ (.inr (by omega)) (by omega) (by omega)).trans h.pc
  tlb i := by
    refine (h.tlb i).same fun k hk => ?_
    rw [byteAt_byteAt, entryOff_eq]
    exact write_byteAt _ (.inr (by omega)) (by omega) (by omega)
  ram p hlt := (hp.write_ram _ (by have := le_offExec; omega) hlt).trans (h.ram p hlt)

theorem Represents.writeRam (h : Represents base ram m c) (hp : Placed base ram c) {p : U64} {n : Nat}
    (hn : p.toNat + n ≤ c.ram_size.toNat) (v : U64) :
    Represents base ram (m.write (ram + p) n v) (c.writeRam p n v) where
  x i := by
    have hoff := regOff_eq i
    have hle := le_offExec
    exact (read_byteAt fun k _ hk => hp.ram_write v hn (by omega)).trans (h.x i)
  pc := by
    have hoff := offsetOf_pc
    have hle := le_offExec
    exact (read_byteAt fun k _ hk => hp.ram_write v hn (by omega)).trans h.pc
  tlb i := by
    have hle := le_offExec
    refine (h.tlb i).same fun k hk => ?_
    rw [byteAt_byteAt, entryOff_eq]
    exact hp.ram_write v hn (by omega)
  ram q hlt := by
    have hsub : ram + q - (ram + p) = q - p := by bv_omega
    show (if (ram + q - (ram + p)).toNat < n then _ else _) = if (q - p).toNat < n then _ else _
    rw [hsub, h.ram q hlt]

/-- **RAM reads the same through the host.** -/
theorem Represents.read_ram (h : Represents base ram m c) {p : U64} {n : Nat} (hn : p.toNat + n ≤ c.ram_size.toNat) :
    m.read (ram + p) n = c.bus.mem.ram.read p n := by
  refine Mem.read_shift n _ _ fun i hi => ?_
  rw [BitVec.add_assoc]
  refine h.ram _ ?_
  have := c.ram_size.isLt
  rw [BitVec.lt_def, BitVec.toNat_add, BitVec.toNat_ofNat]
  omega

end Stores

end Arm64
end PgLinux
