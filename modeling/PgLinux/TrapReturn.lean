import PgLinux.Privilege
/-!
# TrapReturn — a trap and the return that matches it

A trap into a mode saves its interrupt enable in xPIE and the level it came from in xPP; the return of the mode puts both
back.  What runs between the two is anything that leaves the CSRs, the mode and the registers as the trap left them.
-/
namespace PgLinux

open Prog

/-! ## What the pair restores -/

/-- MRET, or SRET for a trap into S-mode. -/
def xret (toS : Bool) : U32 := if toS then 0x10200073 else 0x30200073

/-- xIE. -/
def ieBit (toS : Bool) : Nat := if toS then 1 else 3

/-- The bits of xPIE and xPP. -/
def previousBits (toS : Bool) : List Nat := if toS then [5, 8] else [7, 11, 12]

/-- `d` is `t`, run on without a CSR write and with the registers back as they were. -/
structure Untouched (t d : Cpu) : Prop where
  csr : d.csr = t.csr
  priv : d.priv = t.priv
  x : d.x = t.x
  f : d.f = t.f

/-- `d` goes on where `c` stopped. -/
structure TrapUndone (c d : Cpu) (toS : Bool) : Prop where
  pc : d.pc = c.pc
  priv : d.priv = c.priv
  ie : d.csr.mstatus.getLsbD (ieBit toS) = c.csr.mstatus.getLsbD (ieBit toS)
  x : d.x = c.x
  f : d.f = c.f
  mstatus : ∀ i, i ∉ previousBits toS → d.csr.mstatus.getLsbD i = c.csr.mstatus.getLsbD i

/-! ## `mstatus`, bit by bit -/

theorem getLsbD_bit (m : U64) (i j : Nat) : (bit m i).getLsbD j = (decide (j = 0) && m.getLsbD i) := by
  unfold bit
  rw [BitVec.getLsbD_and, BitVec.getLsbD_ushiftRight, show (1 : U64) = 1#64 from rfl, BitVec.getLsbD_one]
  by_cases hj : j = 0 <;> simp [hj]

theorem getLsbD_bit_shl (m : U64) (i : Nat) {n : Nat} (hn : n < 64) (j : Nat) :
    (bit m i <<< n).getLsbD j = (decide (j = n) && m.getLsbD i) := by
  rw [BitVec.getLsbD_shiftLeft, getLsbD_bit]
  by_cases hj : j = n
  · subst hj
    simp [hn]
  · by_cases hlt : j < n
    · simp [hj, hlt]
    · have hsub : j - n ≠ 0 := by omega
      simp [hj, hsub]

/-- A level, shifted to its place. -/
theorem getLsbD_level {p : U8} (hp : p.toNat < 4) {n : Nat} (hn : n + 1 < 64) (j : Nat) :
    (p.setWidth 64 <<< n).getLsbD j = (decide (j = n) && p.getLsbD 0 || decide (j = n + 1) && p.getLsbD 1) := by
  have hhigh (k : Nat) (hk : 2 ≤ k) : p.getLsbD k = false :=
    Nat.testBit_lt_two_pow (Nat.lt_of_lt_of_le hp (Nat.pow_le_pow_right (Nat.succ_pos 1) hk))
  rw [BitVec.getLsbD_shiftLeft, BitVec.getLsbD_setWidth]
  by_cases h0 : j = n
  · subst h0
    simp [Nat.lt_of_succ_lt hn]
  · by_cases h1 : j = n + 1
    · subst h1
      simp [hn]
    · by_cases hlt : j < n
      · simp [h0, h1, hlt]
      · simp [h0, h1, hhigh (j - n) (by omega)]

def trapStatus (toS : Bool) (m : U64) (p : U8) : U64 :=
  if toS then (((m &&& ~~~mstatusSpie) ||| bit m 1 <<< 5) &&& ~~~mstatusSie &&& ~~~mstatusSpp) ||| p.setWidth 64 <<< 8
  else (((m &&& ~~~mstatusMpie) ||| bit m 3 <<< 7) &&& ~~~mstatusMie &&& ~~~mstatusMpp) ||| p.setWidth 64 <<< 11

def returnStatus (toS : Bool) (m : U64) : U64 :=
  if toS then (((m &&& ~~~mstatusSie) ||| bit m 5 <<< 1) ||| mstatusSpie) &&& ~~~mstatusSpp
  else (((m &&& ~~~mstatusMie) ||| bit m 7 <<< 3) ||| mstatusMpie) &&& ~~~mstatusMpp

theorem getLsbD_mask {m : U64} {n : Nat} (hn : n < 64) (hm : m = BitVec.twoPow 64 n) (j : Nat) :
    m.getLsbD j = decide (j = n) := by
  rw [hm, BitVec.getLsbD_twoPow]
  simp [hn, eq_comm]

theorem getLsbD_sie (j : Nat) : mstatusSie.getLsbD j = decide (j = 1) := getLsbD_mask (by decide) rfl j
theorem getLsbD_mie (j : Nat) : mstatusMie.getLsbD j = decide (j = 3) := getLsbD_mask (by decide) rfl j
theorem getLsbD_spie (j : Nat) : mstatusSpie.getLsbD j = decide (j = 5) := getLsbD_mask (by decide) rfl j
theorem getLsbD_mpie (j : Nat) : mstatusMpie.getLsbD j = decide (j = 7) := getLsbD_mask (by decide) rfl j
theorem getLsbD_spp (j : Nat) : mstatusSpp.getLsbD j = decide (j = 8) := getLsbD_mask (by decide) rfl j

theorem getLsbD_mpp (j : Nat) : mstatusMpp.getLsbD j = (decide (j = 11) || decide (j = 12)) := by
  rw [show mstatusMpp = BitVec.twoPow 64 11 ||| BitVec.twoPow 64 12 from rfl, BitVec.getLsbD_or,
    getLsbD_mask (by decide) rfl, getLsbD_mask (by decide) rfl]

theorem getLsbD_trapStatus_s {p : U8} (hp : p.toNat < 2) (m : U64) {i : Nat} (hi : i < 64) :
    (trapStatus true m p).getLsbD i =
      if i = 1 then false else if i = 5 then m.getLsbD 1 else if i = 8 then p.getLsbD 0 else m.getLsbD i := by
  have hlevel : p.getLsbD 1 = false := Nat.testBit_lt_two_pow hp
  simp only [trapStatus, ↓reduceIte, BitVec.getLsbD_or, BitVec.getLsbD_and, BitVec.getLsbD_not, getLsbD_sie, getLsbD_spie,
    getLsbD_spp, getLsbD_bit_shl, getLsbD_level (Nat.lt_trans hp (by decide)), Nat.reduceLT, Nat.reduceAdd, hlevel, hi]
  split_ifs <;> simp [*]

theorem getLsbD_trapStatus_m {p : U8} (hp : p.toNat < 4) (m : U64) {i : Nat} (hi : i < 64) :
    (trapStatus false m p).getLsbD i =
      if i = 3 then false else if i = 7 then m.getLsbD 3 else if i = 11 then p.getLsbD 0
      else if i = 12 then p.getLsbD 1 else m.getLsbD i := by
  simp only [trapStatus, Bool.false_eq_true, ↓reduceIte, BitVec.getLsbD_or, BitVec.getLsbD_and, BitVec.getLsbD_not,
    getLsbD_mie, getLsbD_mpie, getLsbD_mpp, getLsbD_bit_shl, getLsbD_level hp, Nat.reduceLT, Nat.reduceAdd, hi]
  split_ifs <;> simp [*]

theorem getLsbD_returnStatus_s (m : U64) {i : Nat} (hi : i < 64) : (returnStatus true m).getLsbD i =
    if i = 1 then m.getLsbD 5 else if i = 5 then true else if i = 8 then false else m.getLsbD i := by
  simp only [returnStatus, ↓reduceIte, BitVec.getLsbD_or, BitVec.getLsbD_and, BitVec.getLsbD_not, getLsbD_sie, getLsbD_spie,
    getLsbD_spp, getLsbD_bit_shl, Nat.reduceLT, hi]
  split_ifs <;> simp [*]

theorem getLsbD_returnStatus_m (m : U64) {i : Nat} (hi : i < 64) : (returnStatus false m).getLsbD i =
    if i = 3 then m.getLsbD 7 else if i = 7 then true else if i = 11 then false else if i = 12 then false
    else m.getLsbD i := by
  simp only [returnStatus, Bool.false_eq_true, ↓reduceIte, BitVec.getLsbD_or, BitVec.getLsbD_and, BitVec.getLsbD_not,
    getLsbD_mie, getLsbD_mpie, getLsbD_mpp, getLsbD_bit_shl, Nat.reduceLT, hi]
  split_ifs <;> simp [*]

/-- **Between a trap and its return, xPIE and xPP are all that changes in `mstatus`.** -/
theorem status_kept {toS : Bool} {p : U8} (hp : p.toNat < if toS then 2 else 4) (m : U64) {i : Nat}
    (hi : i ∉ previousBits toS) : (returnStatus toS (trapStatus toS m p)).getLsbD i = m.getLsbD i := by
  by_cases h64 : i < 64
  · cases toS with
    | true =>
      have hbits : i ≠ 5 ∧ i ≠ 8 := by simpa [previousBits] using hi
      rw [getLsbD_returnStatus_s _ h64, getLsbD_trapStatus_s hp m (by decide), getLsbD_trapStatus_s hp m h64]
      by_cases h1 : i = 1 <;> simp [h1, hbits]
    | false =>
      have hbits : i ≠ 7 ∧ i ≠ 11 ∧ i ≠ 12 := by simpa [previousBits] using hi
      rw [getLsbD_returnStatus_m _ h64, getLsbD_trapStatus_m hp m (by decide), getLsbD_trapStatus_m hp m h64]
      by_cases h3 : i = 3 <;> simp [h3, hbits]
  · rw [BitVec.getLsbD_of_ge _ _ (by omega), BitVec.getLsbD_of_ge _ _ (by omega)]

/-- The level a return goes to. -/
def returnLevel (toS : Bool) (m : U64) : U8 :=
  if toS then (bit m 8).setWidth 8 else (m >>> 11 &&& 3).setWidth 8

theorem level_saved {toS : Bool} {p : U8} (hp : p.toNat < if toS then 2 else 4) (m : U64) :
    returnLevel toS (trapStatus toS m p) = p := by
  apply BitVec.eq_of_getLsbD_eq
  intro i hi
  have hhigh (k : Nat) (hk : (if toS then 1 else 2) ≤ k) : p.getLsbD k = false := by
    refine Nat.testBit_lt_two_pow (Nat.lt_of_lt_of_le hp ?_)
    cases toS <;> exact Nat.pow_le_pow_right (Nat.succ_pos 1) hk
  cases toS with
  | true =>
    show ((bit (trapStatus true m p) 8).setWidth 8).getLsbD i = p.getLsbD i
    rw [BitVec.getLsbD_setWidth, getLsbD_bit, getLsbD_trapStatus_s hp m (by decide)]
    by_cases h0 : i = 0
    · subst h0
      rfl
    · simp [hhigh i (Nat.one_le_iff_ne_zero.2 h0), h0]
  | false =>
    show ((trapStatus false m p >>> 11 &&& 3).setWidth 8).getLsbD i = p.getLsbD i
    have h3 (k : Nat) : (3 : U64).getLsbD k = (decide (k = 0) || decide (k = 1)) := by
      rw [show (3 : U64) = BitVec.twoPow 64 0 ||| BitVec.twoPow 64 1 from rfl, BitVec.getLsbD_or,
        getLsbD_mask (by decide) rfl, getLsbD_mask (by decide) rfl]
    rw [BitVec.getLsbD_setWidth, BitVec.getLsbD_and, BitVec.getLsbD_ushiftRight, h3,
      getLsbD_trapStatus_m hp m (by omega)]
    by_cases h0 : i = 0
    · subst h0
      simp
    · by_cases h1 : i = 1
      · subst h1
        simp
      · simp [hhigh i (show 2 ≤ i by omega), h0, h1]

/-! ## The trap and the return -/

/-- A trap saves the pc, the status and the level, and leaves the registers. -/
structure Saved (toS : Bool) (c t : Cpu) : Prop where
  epc : (if toS then t.csr.sepc else t.csr.mepc) = c.pc
  mstatus : t.csr.mstatus = trapStatus toS c.csr.mstatus c.priv
  priv : t.priv = if toS then privS else privM
  x : t.x = c.x
  f : t.f = c.f

theorem trap_eq (c : Cpu) (cause tval : U64) : ∃ g, trap c cause tval = if trapToS c cause then
      { c with
        csr := { c.csr with
          sepc := c.pc, scause := cause, stval := tval, mstatus := trapStatus true c.csr.mstatus c.priv }
        priv := privS, pc := trapVector c.csr.stvec cause, dbg := g }
    else
      { c with
        csr := { c.csr with
          mepc := c.pc, mcause := cause, mtval := tval, mstatus := trapStatus false c.csr.mstatus c.priv }
        priv := privM, pc := trapVector c.csr.mtvec cause, dbg := g } := by
  obtain ⟨g, hlog⟩ : ∃ g, c.logTrap cause tval = { c with dbg := g } := by
    unfold Cpu.logTrap
    split <;> exact ⟨_, rfl⟩
  refine ⟨g, ?_⟩
  unfold trap
  rw [hlog]
  rfl

theorem trap_saved (c : Cpu) (cause tval : U64) : Saved (trapToS c cause) c (trap c cause tval) := by
  obtain ⟨g, h⟩ := trap_eq c cause tval
  rw [h]
  cases trapToS c cause <;> exact ⟨rfl, rfl, rfl, rfl, rfl⟩

theorem trap_cause (c : Cpu) (cause tval : U64) :
    (if trapToS c cause then (trap c cause tval).csr.scause else (trap c cause tval).csr.mcause) = cause := by
  obtain ⟨g, h⟩ := trap_eq c cause tval
  rw [h]
  cases trapToS c cause <;> rfl

/-- A trap tells its cause. -/
theorem trap_cause_inj {c d : Cpu} {a b tval tval' : U64} (hp : (trap c a tval).priv = (trap d b tval').priv)
    (hcsr : (trap c a tval).csr = (trap d b tval').csr) : a = b := by
  have hto : trapToS c a = trapToS d b := by
    rw [(trap_saved c a tval).priv, (trap_saved d b tval').priv] at hp
    revert hp
    cases trapToS c a <;> cases trapToS d b <;> decide
  rw [← trap_cause c a tval, ← trap_cause d b tval', hcsr, hto]

theorem PrivWf.lt_of_trap {c : Cpu} (h : PrivWf c) (cause : U64) : c.priv.toNat < if trapToS c cause then 2 else 4 := by
  cases hto : trapToS c cause with
  | true =>
    have hm : c.priv ≠ privM := fun hm => by
      unfold trapToS at hto
      rw [if_pos hm] at hto
      cases hto
    obtain hp | hp | hp := h
    · rw [hp]
      decide
    · rw [hp]
      decide
    · exact absurd hp hm
  | false => exact h.lt

/-- What a return leads to, in the mode it belongs to. -/
structure XretDone (toS : Bool) (c d : Cpu) : Prop where
  pc : d.pc = if toS then c.csr.sepc else c.csr.mepc
  mstatus : d.csr.mstatus = returnStatus toS c.csr.mstatus
  priv : d.priv = returnLevel toS c.csr.mstatus
  x : d.x = c.x
  f : d.f = c.f

section Step

variable [NetDevice] [HostFp]

theorem execInsn_xret {toS : Bool} {c : Cpu} (hp : c.priv = if toS then privS else privM) (pc nextPc : U64) :
    ∃ d, execInsn (xret toS) pc nextPc c = .ok (if toS then c.csr.sepc else c.csr.mepc) d ∧
      d.csr.mstatus = returnStatus toS c.csr.mstatus ∧ d.priv = returnLevel toS c.csr.mstatus ∧ d.x = c.x ∧ d.f = c.f := by
  cases toS with
  | true =>
    refine ⟨sret c, ?_, ?_⟩
    · show (if c.priv < privS then illegal 0x10200073 else do set (sret c); return c.csr.sepc : Exec U64) c = _
      rw [if_neg (by rw [hp]; decide)]
      rfl
    · unfold sret backfill
      dsimp only
      split <;> exact ⟨rfl, rfl, rfl, rfl⟩
  | false => exact ⟨mret c, execInsn_mret hp pc nextPc, rfl, rfl, rfl, rfl⟩

theorem rv64Step_xret {toS : Bool} {c d : Cpu} {word : U32} (hf : Fetches c word (xret toS) d)
    (hp : c.priv = if toS then privS else privM) : XretDone toS c (rv64Step c) := by
  obtain ⟨t, b, g, rfl⟩ := hf.frame
  obtain ⟨e, hexec, hstatus, hpriv, hx, hfr⟩ := execInsn_xret (c := logInsn word { c with tlb := t, bus := b, dbg := g }) hp
    c.pc (c.pc + insnBytes (isCompressed word))
  rw [hf.rv64Step_ok hexec]
  exact ⟨rfl, hstatus, hpriv, hx, hfr⟩

/-- **The return of the mode a trap went to undoes the trap**, for whatever cause and wherever the handler is. -/
theorem xret_resumes {c : Cpu} (hc : PrivWf c) (cause tval : U64) {d e : Cpu} (hd : Untouched (trap c cause tval) d)
    {word : U32} (hf : Fetches d word (xret (trapToS c cause)) e) : TrapUndone c (rv64Step d) (trapToS c cause) := by
  have hsaved := trap_saved c cause tval
  have hlevel := hc.lt_of_trap cause
  have hret := rv64Step_xret hf (hd.priv.trans hsaved.priv)
  have hmstatus : d.csr.mstatus = trapStatus (trapToS c cause) c.csr.mstatus c.priv := by rw [hd.csr, hsaved.mstatus]
  have hkept (i : Nat) (hi : i ∉ previousBits (trapToS c cause)) :
      (rv64Step d).csr.mstatus.getLsbD i = c.csr.mstatus.getLsbD i := by
    rw [hret.mstatus, hmstatus]
    exact status_kept hlevel c.csr.mstatus hi
  exact {
    pc := by rw [hret.pc, hd.csr, hsaved.epc]
    priv := by rw [hret.priv, hmstatus, level_saved hlevel]
    ie := hkept _ (by cases trapToS c cause <;> decide)
    x := hret.x.trans (hd.x.trans hsaved.x)
    f := hret.f.trans (hd.f.trans hsaved.f)
    mstatus := hkept }

end Step

/-! ## A system call of user mode -/

section Ecall

local instance ecallNet : NetDevice := NetDevice.silent
local instance ecallFp : HostFp := HostFp.zero

/-- User mode at 0x80000100, with an MRET as the handler. -/
def ecallUser : Cpu :=
  { rv64Init (programAt [0x30200073] 0 fun _ => 0) 0x1000 with
    priv := privU, pc := 0x80000100, csr := { Csr.zero with mtvec := ramBase } }

theorem ecallUser_fetches : Fetches (trap ecallUser excEcallU 0) 0x30200073 0x30200073 (trap ecallUser excEcallU 0) := by
  have hbare : satpMode (trap ecallUser excEcallU 0).csr.satp = satpModeBare := by decide
  have hmem : ((trap ecallUser excEcallU 0).bus.mem.ram.read (ramBase - ramBase) 4).setWidth 32 = 0x30200073 := by
    rw [BitVec.sub_self]
    exact Mem.read_word _ 0 0x30200073
  exact fetches_word rfl rfl (rv64Translate_bare hbare _ .exec) rfl (show crossesPage ramBase 4 = false by decide)
    (show inRam 0x1000 ramBase = true by decide) hmem rfl

theorem xret_resumes_ecall :
    TrapUndone ecallUser (rv64Step (trap ecallUser excEcallU 0)) (trapToS ecallUser excEcallU) :=
  xret_resumes (.inl rfl) excEcallU 0 ⟨rfl, rfl, rfl, rfl⟩ ecallUser_fetches

end Ecall

end PgLinux
