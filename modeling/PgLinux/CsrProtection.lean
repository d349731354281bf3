import PgLinux.Privilege
/-!
# CsrProtection — who may touch which CSR

A CSR number carries the lowest level that may touch it in bits 9:8, and 3 in bits 11:10 when it is read-only.  `execCsr`
looks at neither: it stops only where `csr_read` knows no such CSR.
-/
namespace PgLinux

open Prog

/-! ## The rule -/

def csrAddr (insn : U32) : BitVec 12 := insn.extractLsb' 20 12

/-- CSRRW, CSRRS and CSRRC, and their forms with an immediate. -/
def IsCsrInsn (insn : U32) : Prop := opcode insn = 0x73 ∧ funct3 insn &&& 3 ≠ 0

instance (insn : U32) : Decidable (IsCsrInsn insn) := inferInstanceAs (Decidable (_ ∧ _))

/-- The forms with rs1 = x0, or a zero immediate, of CSRRS and CSRRC do not write. -/
def CsrWrites (insn : U32) : Prop := funct3 insn &&& 3 = 1 ∨ rs1 insn ≠ 0

instance (insn : U32) : Decidable (CsrWrites insn) := inferInstanceAs (Decidable (_ ∨ _))

def csrLevel (csr : BitVec 12) : BitVec 2 := csr.extractLsb' 8 2

def csrReadOnly (csr : BitVec 12) : Bool := csr.extractLsb' 10 2 == 3

def Permitted (priv : U8) (insn : U32) : Prop :=
  (csrLevel (csrAddr insn)).setWidth 8 ≤ priv ∧ (CsrWrites insn → csrReadOnly (csrAddr insn) = false)

instance (priv : U8) (insn : U32) : Decidable (Permitted priv insn) := inferInstanceAs (Decidable (_ ∧ _))

/-- Of the CSRs, at most those of a trap differ. -/
def TrapCsrsOnly (c c' : Cpu) : Prop :=
  (∃ mstatus mepc mcause mtval sepc scause stval, c'.csr = { c.csr with
    mstatus := mstatus, mepc := mepc, mcause := mcause, mtval := mtval, sepc := sepc, scause := scause, stval := stval }) ∧
  c'.fcsr = c.fcsr ∧ c'.instret = c.instret

section Step

variable [NetDevice] [HostFp]

/-- The step ends in an illegal-instruction trap, taken after the fetch. -/
def TrapsIllegal (c : Cpu) (insn : U32) : Prop :=
  ∃ d, AccessFrame c d ∧ rv64Step c = trap d excIllegalInsn (insn.setWidth 64)

/-- What the rule asks of a step that fetches `insn`. -/
structure CsrProtected (c : Cpu) (insn : U32) : Prop where
  refused : ¬ Permitted c.priv insn → TrapsIllegal c insn ∧ TrapCsrsOnly c (rv64Step c)
  user : c.priv = privU → (rv64Step c).instret = c.instret + 1 → (rv64Step c).csr = c.csr

end Step

/-! ## The access -/

theorem trap_instret (c : Cpu) (cause tval : U64) : (trap c cause tval).instret = c.instret := by
  obtain ⟨r, p, pc, d, h⟩ := trap_frame c cause tval
  rw [h]

theorem trap_csrs (c : Cpu) (cause tval : U64) : TrapCsrsOnly c (trap c cause tval) := by
  unfold TrapCsrsOnly trap Cpu.logTrap
  dsimp only
  split <;> split <;> exact ⟨⟨_, _, _, _, _, _, _, rfl⟩, rfl, rfl⟩

theorem csrWrite_instret (c : Cpu) (csr : BitVec 12) (val : U64) : (csrWrite c csr val).instret = c.instret := by
  obtain ⟨r, f, t, j, h⟩ := csrWrite_frame c csr val
  rw [h]

theorem csrWriteChecked_instret (csr : BitVec 12) (val : U64) (c : Cpu) :
    (csrWriteChecked csr val c).instret = c.instret := by
  unfold csrWriteChecked
  dsimp only
  split <;> exact csrWrite_instret c csr val

theorem ne_add_one (v : U64) : v ≠ v + 1 := by
  intro h
  have hnat := congrArg BitVec.toNat h
  rw [BitVec.toNat_add] at hnat
  have hlt := v.isLt
  have hone : (1 : U64).toNat = 1 := rfl
  omega

theorem csrLevel_toNat (csr : BitVec 12) : (csrLevel csr).toNat = csr.toNat / 256 % 4 := by
  simp [csrLevel, Nat.shiftRight_eq_div_pow]

/-- No CSR of the record is a user-level one. -/
theorem csrUpdate_user {csr : BitVec 12} (h : csrLevel csr = 0) (r : Csr) (val : U64) : csrUpdate r csr val = r := by
  have hn : csr.toNat / 256 % 4 = 0 := by
    rw [← csrLevel_toNat, h]
    rfl
  unfold csrUpdate
  split
  all_goals first | rfl | (exfalso; omega)

theorem csrWrite_user {csr : BitVec 12} (h : csrLevel csr = 0) (c : Cpu) (val : U64) : (csrWrite c csr val).csr = c.csr := by
  have hsatp : csr ≠ 0x180 := by
    rintro rfl
    exact absurd h (by decide)
  unfold csrWrite
  rw [if_neg hsatp, csrUpdate_user h]
  split
  · rfl
  · split
    · rfl
    · split <;> rfl

theorem csrWriteChecked_user {csr : BitVec 12} (h : csrLevel csr = 0) (val : U64) (c : Cpu) :
    (csrWriteChecked csr val c).csr = c.csr := by
  unfold csrWriteChecked
  dsimp only
  split <;> exact csrWrite_user h c val

/-- Which CSRs `csr_read` knows does not depend on the machine. -/
theorem csrRead_isSome (c d : Cpu) (csr : BitVec 12) : (csrRead c csr).isSome = (csrRead d csr).isSome := by
  unfold csrRead
  generalize csr.toNat = n
  split <;> simp [*]

theorem csrRead_eq_none (c d : Cpu) (csr : BitVec 12) : csrRead c csr = none ↔ csrRead d csr = none := by
  rw [← Option.isNone_iff_eq_none, ← Option.isNone_iff_eq_none, ← Option.not_isSome, ← Option.not_isSome,
    csrRead_isSome c d]

theorem execCsr_none {c : Cpu} {insn : U32} (h : csrRead c (csrAddr insn) = none) (nextPc : U64) :
    execCsr insn nextPc c = .error () (trap c excIllegalInsn (insn.setWidth 64)) := by
  unfold execCsr
  rw [get_bind_apply]
  dsimp only
  rw [show csrRead c (insn.extractLsb' 20 12) = none from h]
  rfl

/-- A CSR that is known is read and written, whatever the level. -/
theorem execCsr_some {c : Cpu} {insn : U32} {old : U64} (h : csrRead c (csrAddr insn) = some old) (nextPc : U64) :
    ∃ e, execCsr insn nextPc c = .ok nextPc e ∧ e.instret = c.instret ∧
      (csrLevel (csrAddr insn) = 0 → e.csr = c.csr) := by
  unfold execCsr
  rw [get_bind_apply]
  dsimp only
  rw [show csrRead c (insn.extractLsb' 20 12) = some old from h]
  dsimp only
  generalize (if (funct3 insn).getLsbD 2 then (rs1 insn).setWidth 64 else c.x (rs1 insn)) = src
  split
  · refine ⟨_, rfl, ?_, fun hlevel => ?_⟩
    · exact csrWriteChecked_instret _ _ c
    · exact csrWriteChecked_user hlevel _ c
  · exact ⟨_, rfl, rfl, fun _ => rfl⟩

section Step

variable [NetDevice] [HostFp]

theorem execInsn_csr {insn : U32} (h : IsCsrInsn insn) (pc nextPc : U64) (c : Cpu) :
    execInsn insn pc nextPc c = execCsr insn nextPc c := by
  have hop : (opcode insn).toNat = 0x73 := by
    rw [h.1]
    rfl
  have hf : funct3 insn ≠ 0 := by
    intro h0
    exact h.2 (by rw [h0]; rfl)
  unfold execInsn
  rw [get_bind_apply]
  simp only [hop, if_neg hf]

/-- **A CSR instruction obeys the rule exactly when the rule permits it or its CSR does not exist.** -/
theorem csrProtected_iff {c d : Cpu} {word insn : U32} (hf : Fetches c word insn d) (hcsr : IsCsrInsn insn) :
    CsrProtected c insn ↔ Permitted c.priv insn ∨ csrRead c (csrAddr insn) = none := by
  have hframe : AccessFrame c (logInsn word d) := by
    obtain ⟨t, b, g, rfl⟩ := hf.frame
    exact ⟨t, b, _, rfl⟩
  have hexec := execInsn_csr hcsr c.pc (c.pc + insnBytes (isCompressed word)) (logInsn word d)
  have hcsrs : (logInsn word d).csr = c.csr ∧ (logInsn word d).fcsr = c.fcsr ∧ (logInsn word d).instret = c.instret := by
    obtain ⟨t, b, g, hd⟩ := hframe
    rw [hd]
    exact ⟨rfl, rfl, rfl⟩
  obtain ⟨hr, hfcsr, hinstret⟩ := hcsrs
  rw [csrRead_eq_none c (logInsn word d)]
  cases hread : csrRead (logInsn word d) (csrAddr insn) with
  | none =>
    have htrap := hf.rv64Step_error (hexec.trans (execCsr_none hread _))
    refine ⟨fun _ => .inr rfl, fun _ => ⟨fun _ => ⟨⟨_, hframe, htrap⟩, ?_⟩, fun _ hretired => ?_⟩⟩
    · have hcsrs := trap_csrs (logInsn word d) excIllegalInsn (insn.setWidth 64)
      unfold TrapCsrsOnly at hcsrs
      rw [hr, hfcsr, hinstret] at hcsrs
      rw [htrap]
      exact hcsrs
    · rw [htrap, trap_instret, hinstret] at hretired
      exact absurd hretired (ne_add_one c.instret)
  | some old =>
    obtain ⟨e, hok, hei, hecsr⟩ := execCsr_some hread (c.pc + insnBytes (isCompressed word))
    have hstep := hf.rv64Step_ok (hexec.trans hok)
    have hretired : (rv64Step c).instret = c.instret + 1 := by
      rw [hstep]
      show e.instret + 1 = c.instret + 1
      rw [hei, hinstret]
    constructor
    · intro hrule
      refine .inl (by_contra fun hperm => ?_)
      obtain ⟨⟨g, ⟨t, b, l, rfl⟩, htrap⟩, -⟩ := hrule.refused hperm
      rw [htrap, trap_instret] at hretired
      exact ne_add_one c.instret hretired
    · rintro (hperm | hnone)
      · refine ⟨fun h => absurd hperm h, fun hp _ => ?_⟩
        have hlevel : csrLevel (csrAddr insn) = 0 := by
          have hle := hperm.1
          rw [hp] at hle
          revert hle
          generalize csrLevel (csrAddr insn) = l
          revert l
          decide
        rw [hstep]
        exact (hecsr hlevel).trans hr
      · cases hnone

end Step

/-! ## Two user programs -/

section User

local instance userNet : NetDevice := NetDevice.silent
local instance userFp : HostFp := HostFp.zero

/-- User mode, about to execute `word`; translation is off. -/
def userMode (word : U32) : Cpu :=
  { rv64Init (Mem.write (fun _ => 0) 0 4 (word.setWidth 64)) 0x1000 with priv := privU }

theorem userMode_fetches {word : U32} (h : isCompressed word = false) :
    Fetches (userMode word) word word (userMode word) := by
  have hbare : satpMode (userMode word).csr.satp = satpModeBare := show satpMode 0 = satpModeBare by decide
  have hmiss : loadFast (userMode word) ramBase 4 .exec = none := rfl
  have hmem : ((Mem.write (fun _ => 0) 0 4 (word.setWidth 64)).read (ramBase - ramBase) 4).setWidth 32 = word := by
    rw [BitVec.sub_self]
    exact Mem.read_word _ 0 word
  exact fetches_word rfl rfl (rv64Translate_bare hbare _ .exec) hmiss (show crossesPage ramBase 4 = false by decide)
    (show inRam 0x1000 ramBase = true by decide) hmem h

/-- CSRRWI x0, mtvec, 4: user mode installs a trap handler. -/
theorem not_csrProtected_mtvec : ∃ c word insn d, Fetches c word insn d ∧ IsCsrInsn insn ∧ ¬ CsrProtected c insn := by
  refine ⟨_, _, _, _, @userMode_fetches 0x30525073 rfl, by decide, fun hrule => ?_⟩
  obtain ⟨⟨d, ⟨t, b, l, rfl⟩, htrap⟩, -⟩ := hrule.refused (by decide)
  have hinstret : (rv64Step (userMode 0x30525073)).instret = 0 :=
    (congrArg Cpu.instret htrap).trans (trap_instret _ _ _)
  revert hinstret
  decide +kernel

/-- CSRRS x10, cycle, x0 is permitted. -/
theorem csrProtected_rdcycle : CsrProtected (userMode 0xC0002573) 0xC0002573 :=
  (csrProtected_iff (userMode_fetches rfl) (by decide)).2 (.inl (by decide))

end User

end PgLinux
