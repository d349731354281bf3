import PgLinux.Cpu
import PgLinux.Lib.Runs
import PgLinux.Walk
/-!
# ClintRegisters — `mtime` and `mtimecmp` under accesses of four and eight bytes

A register is eight bytes: a store writes bytes, a load reads them as a little-endian number.  The bus hands the size of
an access to `clint_store` but not to `clint_load`.
-/
namespace PgLinux

/-! ## Registers as bytes -/

inductive ClintReg where
  | mtimecmp | mtime
deriving DecidableEq

/-- All eight bytes, or an aligned half. -/
inductive Part where
  | whole | low | high
deriving DecidableEq

def ClintReg.offset : ClintReg → U64
  | .mtimecmp => clintMtimecmp
  | .mtime => clintMtime

def Clint.reg (c : Clint) : ClintReg → U64
  | .mtimecmp => c.mtimecmp
  | .mtime => c.mtime

def Part.offset : Part → U64
  | .whole | .low => 0
  | .high => 4

def Part.size : Part → Nat
  | .whole => 8
  | .low | .high => 4

def clintAddr (r : ClintReg) (p : Part) : U64 := clintBase + (r.offset + p.offset)

inductive ClintAccess where
  | load (r : ClintReg) (p : Part)
  | store (r : ClintReg) (p : Part) (val : U64)

/-- The bytes of each register. -/
abbrev RegBytes := ClintReg → Mem

def Clint.bytes (c : Clint) : RegBytes := fun r i => byteOf (c.reg r) i.toNat

section Accesses

variable [NetDevice] (ramSize : U64)

/-- An access to the bus, and to the bytes. -/
def ClintAccess.run (s : Bus × RegBytes) : ClintAccess → Bus × RegBytes
  | .load r p => ((busLoad ramSize s.1 (clintAddr r p) p.size).2, s.2)
  | .store r p val =>
    (busStore ramSize s.1 (clintAddr r p) p.size val, setAt s.2 r ((s.2 r).write p.offset p.size val))

/-- The registers hold their bytes. -/
def HoldsBytes (s : Bus × RegBytes) : Prop := ∀ r, s.1.clint.reg r = (s.2 r).read 0 8

/-- The bus answers a load with something else than the bytes. -/
def LoadsOther (s : Bus × RegBytes) (e : ClintAccess) : Prop :=
  ∃ r p, e = .load r p ∧ (busLoad ramSize s.1 (clintAddr r p) p.size).1 ≠ (s.2 r).read p.offset p.size

/-- A load of all eight bytes, where the upper half is not zero. -/
def LosesUpper (s : Bus × RegBytes) (e : ClintAccess) : Prop := ∃ r, e = .load r .whole ∧ s.1.clint.reg r >>> 32 ≠ 0

end Accesses

/-! ## Halves -/

theorem highMask_getLsbD : ∀ j < 64, (0xFFFFFFFF00000000 : U64).getLsbD j = decide (32 ≤ j) := by decide

theorem read_half_low (m : Mem) : m.read 0 4 = m.read 0 8 &&& 0xFFFFFFFF := by
  apply BitVec.eq_of_getLsbD_eq
  intro j hj
  rw [BitVec.getLsbD_and, lowMask_getLsbD j, Mem.read_getLsbD m 4 0 j hj, Mem.read_getLsbD m 8 0 j hj,
    decide_eq_true (show j < 8 * 8 from hj), Bool.true_and, Bool.and_comm]

theorem read_half_high (m : Mem) : m.read 4 4 = m.read 0 8 >>> 32 := by
  apply BitVec.eq_of_getLsbD_eq
  intro j hj
  rw [BitVec.getLsbD_ushiftRight, Mem.read_getLsbD m 4 4 j hj]
  by_cases h32 : j < 32
  · have hdiv : (0 : U64) + BitVec.ofNat 64 ((32 + j) / 8) = 4 + BitVec.ofNat 64 (j / 8) := by
      rw [show (32 + j) / 8 = 4 + j / 8 by omega, BitVec.ofNat_add]
      exact BitVec.zero_add _
    rw [Mem.read_getLsbD m 8 0 (32 + j) (by omega), hdiv, show (32 + j) % 8 = j % 8 by omega,
      decide_eq_true (show j < 8 * 4 by omega), decide_eq_true (show 32 + j < 8 * 8 by omega)]
  · rw [decide_eq_false (show ¬ j < 8 * 4 by omega), Bool.false_and, BitVec.getLsbD_of_ge _ _ (by omega)]

/-- The register after `n` of its bytes are written. -/
theorem read_write_bit (m : Mem) (v : U64) {off n j : Nat} (hoff : off + n ≤ 8) (hj : j < 64) :
    ((m.write (BitVec.ofNat 64 off) n v).read 0 8).getLsbD j =
      if 8 * off ≤ j ∧ j < 8 * (off + n) then v.getLsbD (j - 8 * off) else (m.read 0 8).getLsbD j := by
  have hsub : 8 * off ≤ j → ((0 : U64) + BitVec.ofNat 64 (j / 8) - BitVec.ofNat 64 off).toNat = j / 8 - off := by
    intro hle
    rw [show (0 : U64) + BitVec.ofNat 64 (j / 8) = BitVec.ofNat 64 (j / 8) from BitVec.zero_add _, BitVec.toNat_sub,
      BitVec.toNat_ofNat, BitVec.toNat_ofNat]
    omega
  rw [Mem.read_getLsbD _ 8 0 j hj, Mem.read_getLsbD m 8 0 j hj]
  split
  next hin =>
    have hbyte := hsub hin.1
    rw [Mem.write_of_lt _ _ _ _ _ (by omega), hbyte, byteOf_getLsbD, show 8 * (j / 8 - off) + j % 8 = j - 8 * off by omega,
      decide_eq_true (show j % 8 < 8 by omega), decide_eq_true (show j < 8 * 8 from hj), Bool.true_and, Bool.true_and]
  next hout =>
    have hfar : n ≤ ((0 : U64) + BitVec.ofNat 64 (j / 8) - BitVec.ofNat 64 off).toNat := by
      by_cases hle : 8 * off ≤ j
      · rw [hsub hle]
        omega
      · rw [show (0 : U64) + BitVec.ofNat 64 (j / 8) = BitVec.ofNat 64 (j / 8) from BitVec.zero_add _, BitVec.toNat_sub,
          BitVec.toNat_ofNat, BitVec.toNat_ofNat]
        omega
    rw [Mem.write_of_le _ _ _ _ _ hfar]

theorem read_write_low (m : Mem) (v : U64) : (m.write 0 4 v).read 0 8 = setLow (m.read 0 8) v := by
  apply BitVec.eq_of_getLsbD_eq
  intro j hj
  rw [show m.write 0 4 v = m.write (BitVec.ofNat 64 0) 4 v from rfl, read_write_bit m v (by decide) hj]
  unfold setLow
  rw [BitVec.getLsbD_or, BitVec.getLsbD_and, BitVec.getLsbD_and, lowMask_getLsbD j, highMask_getLsbD j hj]
  by_cases h : j < 32
  · simp [h, show ¬ 32 ≤ j by omega]
  · simp [h, show 32 ≤ j by omega]

theorem read_write_high (m : Mem) (v : U64) : (m.write 4 4 v).read 0 8 = setHigh (m.read 0 8) v := by
  apply BitVec.eq_of_getLsbD_eq
  intro j hj
  rw [show m.write 4 4 v = m.write (BitVec.ofNat 64 4) 4 v from rfl, read_write_bit m v (by decide) hj]
  have hset : setHigh (m.read 0 8) v = (m.read 0 8 &&& (0xFFFFFFFF : U64)) ||| ((v &&& (0xFFFFFFFF : U64)) <<< (32 : Nat)) :=
    rfl
  rw [hset, BitVec.getLsbD_or, BitVec.getLsbD_and, BitVec.getLsbD_shiftLeft, BitVec.getLsbD_and, lowMask_getLsbD j,
    lowMask_getLsbD (j - 32)]
  by_cases h : j < 32
  · simp [h, show ¬ 32 ≤ j by omega]
  · simp [h, hj, show 32 ≤ j by omega, show j - 32 < 32 by omega]

theorem read_write_whole (m : Mem) (v : U64) : (m.write 0 8 v).read 0 8 = v := by
  apply BitVec.eq_of_getLsbD_eq
  intro j hj
  rw [show m.write 0 8 v = m.write (BitVec.ofNat 64 0) 8 v from rfl, read_write_bit m v (by decide) hj]
  simp [hj]

/-- What a store of a part makes of a register. -/
def Part.put : Part → U64 → U64 → U64
  | .whole, _, val => val
  | .low, old, val => setLow old val
  | .high, old, val => setHigh old val

theorem read_write_part (m : Mem) (p : Part) (val : U64) :
    (m.write p.offset p.size val).read 0 8 = p.put (m.read 0 8) val := by
  cases p with
  | whole => exact read_write_whole m val
  | low => exact read_write_low m val
  | high => exact read_write_high m val

theorem and_lowMask_eq_iff (v : U64) : v &&& 0xFFFFFFFF = v ↔ v >>> 32 = 0 := by
  constructor
  · intro h
    rw [← h]
    apply BitVec.eq_of_getLsbD_eq
    intro j hj
    rw [BitVec.getLsbD_ushiftRight, BitVec.getLsbD_and]
    by_cases h32 : 32 + j < 64
    · rw [lowMask_getLsbD _, decide_eq_false (show ¬ 32 + j < 32 by omega), Bool.and_false]
      exact BitVec.getLsbD_zero.symm
    · rw [BitVec.getLsbD_of_ge v (32 + j) (by omega), Bool.false_and]
      exact BitVec.getLsbD_zero.symm
  · intro h
    apply BitVec.eq_of_getLsbD_eq
    intro j hj
    rw [BitVec.getLsbD_and, lowMask_getLsbD j]
    by_cases h32 : j < 32
    · simp [h32]
    · have hbit := congrArg (fun w => w.getLsbD (j - 32)) h
      rw [BitVec.getLsbD_ushiftRight, show 32 + (j - 32) = j by omega] at hbit
      rw [decide_eq_false h32, Bool.and_false]
      exact (hbit.trans BitVec.getLsbD_zero).symm

/-! ## One access -/

section Accesses

variable (ramSize : U64) (b : Bus) (r : ClintReg)

theorem clintAddr_notRam (p : Part) : inRam ramSize (clintAddr r p) = false := by
  have hlow : decide (ramBase ≤ clintAddr r p) = false := by cases r <;> cases p <;> decide
  unfold inRam inRange
  rw [hlow, Bool.false_and]

theorem busLoad_clint (p : Part) : busLoad ramSize b (clintAddr r p) p.size = (clintLoad b.clint (r.offset + p.offset), b) := by
  unfold busLoad
  rw [if_neg (by rw [clintAddr_notRam]; decide)]
  cases r <;> cases p <;> rfl

/-- **A load of a half is right; one of all eight bytes is the lower half.** -/
theorem clintLoad_reg (c : Clint) (p : Part) : clintLoad c (r.offset + p.offset) =
    if p = .high then c.reg r >>> 32 else c.reg r &&& 0xFFFFFFFF := by
  cases r <;> cases p <;> rfl

variable [NetDevice]

/-- **A store replaces its bytes of its register.** -/
theorem busStore_clint (p : Part) (val : U64) (m : Mem) (hm : b.clint.reg r = m.read 0 8) (r' : ClintReg) :
    (busStore ramSize b (clintAddr r p) p.size val).clint.reg r' =
      if r' = r then (m.write p.offset p.size val).read 0 8 else b.clint.reg r' := by
  have hstore : (busStore ramSize b (clintAddr r p) p.size val).clint =
      clintStore b.clint (r.offset + p.offset) val p.size := by
    unfold busStore
    rw [if_neg (by rw [clintAddr_notRam]; decide)]
    cases r <;> cases p <;> rfl
  rw [hstore, read_write_part, ← hm]
  cases r <;> cases r' <;> cases p <;> rfl

theorem holdsBytes_step {s : Bus × RegBytes} (h : HoldsBytes s) (e : ClintAccess) : HoldsBytes (e.run ramSize s) := by
  intro r'
  cases e with
  | load r p =>
    show (busLoad ramSize s.1 (clintAddr r p) p.size).2.clint.reg r' = (s.2 r').read 0 8
    rw [busLoad_clint]
    exact h r'
  | store r p val =>
    show (busStore ramSize s.1 (clintAddr r p) p.size val).clint.reg r' =
      (setAt s.2 r ((s.2 r).write p.offset p.size val) r').read 0 8
    rw [busStore_clint ramSize s.1 r p val (s.2 r) (h r)]
    unfold setAt
    split
    · rfl
    · exact h r'

omit [NetDevice] in
theorem loadsOther_iff {s : Bus × RegBytes} (h : HoldsBytes s) (e : ClintAccess) :
    LoadsOther ramSize s e ↔ LosesUpper s e := by
  have hload : ∀ r p, (busLoad ramSize s.1 (clintAddr r p) p.size).1 = (s.2 r).read p.offset p.size ↔
      (p = .whole → s.1.clint.reg r >>> 32 = 0) := by
    intro r p
    rw [busLoad_clint, clintLoad_reg]
    dsimp only
    cases p with
    | whole => simpa [h r, Part.offset, Part.size] using and_lowMask_eq_iff ((s.2 r).read 0 8)
    | low => simpa [h r, Part.offset, Part.size] using (read_half_low (s.2 r)).symm
    | high => simpa [h r, Part.offset, Part.size] using (read_half_high (s.2 r)).symm
  constructor
  · rintro ⟨r, p, rfl, hne⟩
    rw [ne_eq, hload, Classical.not_imp] at hne
    obtain ⟨rfl, hupper⟩ := hne
    exact ⟨r, rfl, hupper⟩
  · rintro ⟨r, rfl, hupper⟩
    exact ⟨r, .whole, rfl, fun heq => hupper ((hload r .whole).1 heq rfl)⟩

/-- **Every access of a run is that of eight bytes exactly when no eight-byte load meets a register of more than 32 bits.** -/
theorem clintRegisters_iff (evs : List ClintAccess) :
    (Runs.Along (ClintAccess.run ramSize) HoldsBytes (b, b.clint.bytes) evs ∧
      Runs.Avoids (ClintAccess.run ramSize) (LoadsOther ramSize) (b, b.clint.bytes) evs) ↔
    Runs.Avoids (ClintAccess.run ramSize) LosesUpper (b, b.clint.bytes) evs := by
  have hstart : HoldsBytes (b, b.clint.bytes) := by
    intro r
    apply BitVec.eq_of_getLsbD_eq
    intro j hj
    show _ = (Mem.read (fun i => byteOf (b.clint.reg r) i.toNat) 0 8).getLsbD j
    have hbyte : ((0 : U64) + BitVec.ofNat 64 (j / 8)).toNat = j / 8 := by
      rw [show (0 : U64) + BitVec.ofNat 64 (j / 8) = BitVec.ofNat 64 (j / 8) from BitVec.zero_add _, BitVec.toNat_ofNat]
      omega
    rw [Mem.read_getLsbD _ 8 0 j hj, byteOf_getLsbD, hbyte, Nat.div_add_mod, decide_eq_true (show j < 8 * 8 from hj),
      decide_eq_true (Nat.mod_lt j (by decide)), Bool.true_and, Bool.true_and]
  refine Runs.along_and_avoids_iff (I := HoldsBytes) (fun s e h => holdsBytes_step ramSize h e) (fun s e h _ => ?_)
    hstart hstart evs
  rw [loadsOther_iff ramSize h]
  exact and_iff_right (holdsBytes_step ramSize h e)

end Accesses

section Instances

local instance clintNet : NetDevice := NetDevice.silent

/-- `mtimecmp` as the reset leaves it, read as eight bytes: the upper half is missing. -/
theorem not_clintRegisters_reset : ¬ Runs.Avoids (ClintAccess.run 0) (LoadsOther 0)
    ((rv64Init (fun _ => 0) 0).bus, (rv64Init (fun _ => 0) 0).bus.clint.bytes) [.load .mtimecmp .whole] := by
  intro h
  exact h [] (.load .mtimecmp .whole) List.prefix_rfl ⟨.mtimecmp, .whole, rfl, by decide⟩

end Instances

end PgLinux
