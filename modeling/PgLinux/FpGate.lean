import PgLinux.JitLegality
/-!
# FpGate — which floating-point instructions are illegal

FS records what became of the FPU's state; it opens and closes nothing.  `rv64_fp_exec`, `csr_read` and `csr_write` do not
look at it, so an encoding is illegal in every state or in none.  `rv64_fp_exec` sets FS before it looks at the encoding.
-/
namespace PgLinux

open Prog

/-! ## The rule -/

/-- The encodings that `rv64_fp_exec` implements. -/
def FpImplemented (insn : U32) : Prop :=
  match (opcode insn).toNat with
  | 0x07 | 0x27 => funct3 insn = 2 ∨ funct3 insn = 3
  | 0x53 =>
    match (funct7 insn).toNat with
    | 0x00 | 0x04 | 0x08 | 0x0C | 0x2C | 0x14 | 0x60 | 0x70 | 0x68 | 0x78 | 0x20
    | 0x01 | 0x05 | 0x09 | 0x0D | 0x2D | 0x15 | 0x21 | 0x61 | 0x69 | 0x71 | 0x79 => True
    | 0x10 | 0x11 | 0x50 | 0x51 => funct3 insn ≤ 2
    | _ => False
  | _ => (insn.extractLsb' 25 2 : BitVec 2) = 0 ∨ (insn.extractLsb' 25 2 : BitVec 2) = 1

/-- A CSR instruction on `fflags`, `frm` or `fcsr`. -/
def AccessesFcsr (insn : U32) : Prop := IsCsrInsn insn ∧ fcsrMask (csrAddr insn) ≠ none

/-- The bits of FS. -/
def fsBits : List Nat := [13, 14]

/-- The machine is `d` after a trap of that cause, but for some bits of `mstatus`. -/
structure TrappedBut (bits : List Nat) (cause : U64) (d c' : Cpu) : Prop where
  frame : ∃ mstatus mepc mcause mtval sepc scause stval priv pc dbg, c' = { d with
    csr := { d.csr with
      mstatus := mstatus, mepc := mepc, mcause := mcause, mtval := mtval, sepc := sepc, scause := scause, stval := stval }
    priv := priv, pc := pc, dbg := dbg }
  mstatus : ∀ i, i ∉ bits → c'.csr.mstatus.getLsbD i = (trapStatus (trapToS d cause) d.csr.mstatus d.priv).getLsbD i

section Rule

variable [NetDevice] [HostFp]

/-- The gate: with FS Off, floating point and its CSRs are illegal; an illegal instruction changes what a trap changes. -/
structure FpGated (c d : Cpu) (insn : U32) : Prop where
  off : statusFs c.csr.mstatus = 0 → IsFp insn ∨ AccessesFcsr insn → StepIllegal c
  keeps : IsFp insn → StepIllegal c → TrappedBut [] excIllegalInsn d (rv64Step c)

/-- No gate: an instruction is illegal for its encoding alone, in a step and in the call of a block, and then changes what
a trap changes, FS apart. -/
structure FpUngated (c d : Cpu) (insn : U32) : Prop where
  illegal : IsFp insn → (StepIllegal c ↔ ¬ FpImplemented insn)
  csr : AccessesFcsr insn → ¬ StepIllegal c
  keeps : IsFp insn → StepIllegal c → TrappedBut fsBits excIllegalInsn d (rv64Step c)
  call : IsFp insn → ∀ m, (rv64FpExec insn m).1 = .illegal ↔ ¬ FpImplemented insn
  callKeeps : ∀ m e, rv64FpExec insn m = (.illegal, e) → ∃ mstatus, e = { m with csr := { m.csr with mstatus := mstatus } } ∧
    ∀ i, i ∉ fsBits → mstatus.getLsbD i = m.csr.mstatus.getLsbD i

end Rule

/-! ## Encodings -/

section Encodings

variable [NetDevice] [HostFp] {insn : U32}

omit [NetDevice] [HostFp] in
theorem fpSgnj_none {w : Nat} {f3 : BitVec 3} {a b : BitVec w} : fpSgnj f3 a b = none ↔ ¬ f3 ≤ 2 := by
  rcases funct3_cases f3 with rfl | rfl | rfl | rfl | rfl | rfl | rfl | rfl <;> simp [fpSgnj]

omit [NetDevice] [HostFp] in
theorem fpCmp_none {w : Nat} {o : FpOps w} {f3 : BitVec 3} {a b : BitVec w} : fpCmp o f3 a b = none ↔ ¬ f3 ≤ 2 := by
  rcases funct3_cases f3 with rfl | rfl | rfl | rfl | rfl | rfl | rfl | rfl <;> simp [fpCmp]

omit [NetDevice] in
/-- **Arithmetic is implemented by `funct7`, and by `funct3` for sign injection and comparison.** -/
theorem fpArith_none (hop : (opcode insn).toNat = 0x53) (c : Cpu) :
    (fpArithS c insn).or (fpArithD c insn) = none ↔ ¬ FpImplemented insn := by
  unfold fpArithS fpArithD FpImplemented
  simp only [hop]
  generalize (funct7 insn).toNat = n
  split
  case h_14 =>
    split <;> simp_all [fpSgnj_none, fpCmp_none]
  all_goals simp [fpSgnj_none, fpCmp_none]

omit [NetDevice] in
theorem fpFmaExec_none (c : Cpu) :
    fpFmaExec c insn = none ↔ ¬ ((insn.extractLsb' 25 2 : BitVec 2) = 0 ∨ (insn.extractLsb' 25 2 : BitVec 2) = 1) := by
  unfold fpFmaExec
  dsimp only
  by_cases h0 : (insn.extractLsb' 25 2 : BitVec 2) = 0
  · simp [h0]
  · by_cases h1 : (insn.extractLsb' 25 2 : BitVec 2) = 1
    · simp [h1]
    · rw [if_neg h0, if_neg h1]
      exact iff_of_true rfl (not_or.2 ⟨h0, h1⟩)

omit [NetDevice] in
theorem fpCompute_none (hload : (opcode insn).toNat ≠ 0x07) (hstore : (opcode insn).toNat ≠ 0x27) (c : Cpu) :
    fpCompute c insn = none ↔ ¬ FpImplemented insn := by
  unfold fpCompute
  by_cases harith : opcode insn = 0x53
  · rw [if_pos harith]
    exact fpArith_none (by rw [harith]; rfl) c
  · rw [if_neg harith]
    rw [fpFmaExec_none]
    unfold FpImplemented
    split
    next h => exact absurd h hload
    next h => exact absurd h hstore
    next h => exact absurd (BitVec.eq_of_toNat_eq h) harith
    next => exact Iff.rfl

omit [NetDevice] [HostFp] in
/-- A load or store of the FPU is illegal in every width but two. -/
theorem fpAccess_illegal {α β : Type} {m : Access α} {n : Access β} {addr addr' : U64} {k : α → Cpu → Cpu} {l : β → Cpu → Cpu}
    {f3 : BitVec 3} {c : Cpu} :
    (if f3 = 2 then fpAccess m addr k c else if f3 = 3 then fpAccess n addr' l c else (.illegal, c)).1 = .illegal ↔
      ¬ (f3 = 2 ∨ f3 = 3) := by
  by_cases h2 : f3 = 2
  · rw [if_pos h2]
    unfold fpAccess
    split <;> simp [h2]
  · by_cases h3 : f3 = 3
    · rw [if_neg h2, if_pos h3]
      unfold fpAccess
      split <;> simp [h3]
    · rw [if_neg h2, if_neg h3]
      exact iff_of_true rfl (not_or.2 ⟨h2, h3⟩)

/-- **`rv64_fp_exec` finds illegal exactly the encodings it does not implement**, in every state. -/
theorem rv64FpExec_illegal_iff (insn : U32) (c : Cpu) : (rv64FpExec insn c).1 = .illegal ↔ ¬ FpImplemented insn := by
  unfold rv64FpExec
  dsimp only
  split
  case h_1 hop =>
    rw [fpAccess_illegal]
    simp only [FpImplemented, hop]
  case h_2 hop =>
    rw [fpAccess_illegal]
    simp only [FpImplemented, hop]
  case h_3 hload hstore =>
    rw [← fpCompute_none hload hstore (markFsDirty c)]
    cases fpCompute (markFsDirty c) insn <;> simp

theorem rv64FpExec_left {c e : Cpu} (h : rv64FpExec insn c = (.illegal, e)) : e = markFsDirty c := by
  rcases rv64FpExec_cases h with hr | ⟨-, he⟩ | ⟨hr, -⟩
  · cases hr
  · exact he
  · cases hr

end Encodings

/-! ## Traps -/

theorem fsBits_mark (m : U64) {i : Nat} (hi : i ∉ fsBits) : (m ||| mstatusFs).getLsbD i = m.getLsbD i := by
  have hfs : mstatusFs = BitVec.twoPow 64 13 ||| BitVec.twoPow 64 14 := rfl
  simp only [fsBits, List.mem_cons, List.not_mem_nil, or_false, not_or] at hi
  rw [BitVec.getLsbD_or, hfs, BitVec.getLsbD_or, getLsbD_mask (by decide) rfl, getLsbD_mask (by decide) rfl]
  simp [hi]

theorem trapStatus_congr {m m' : U64} {i : Nat} (hsie : m'.getLsbD 1 = m.getLsbD 1) (hmie : m'.getLsbD 3 = m.getLsbD 3)
    (hi : m'.getLsbD i = m.getLsbD i) (toS : Bool) (p : U8) :
    (trapStatus toS m' p).getLsbD i = (trapStatus toS m p).getLsbD i := by
  cases toS <;>
    simp only [trapStatus, Bool.false_eq_true, ↓reduceIte, BitVec.getLsbD_or, BitVec.getLsbD_and, getLsbD_bit_shl,
      Nat.reduceLT, hsie, hmie, hi]

/-- A trap leaves FS, so that the rest of the status after it does not depend on FS. -/
theorem trapStatus_mark (toS : Bool) (m : U64) (p : U8) {i : Nat} (hi : i ∉ fsBits) :
    (trapStatus toS (m ||| mstatusFs) p).getLsbD i = (trapStatus toS m p).getLsbD i :=
  trapStatus_congr (fsBits_mark m (by decide)) (fsBits_mark m (by decide)) (fsBits_mark m hi) toS p

/-- The trap of an instruction that the FPU has refused. -/
theorem trappedBut_mark (d : Cpu) (tval : U64) :
    TrappedBut fsBits excIllegalInsn d (trap (markFsDirty d) excIllegalInsn tval) := by
  have hto : trapToS (markFsDirty d) excIllegalInsn = trapToS d excIllegalInsn := rfl
  refine ⟨?_, fun i hi => ?_⟩
  · obtain ⟨g, h⟩ := trap_eq (markFsDirty d) excIllegalInsn tval
    rw [h]
    split
    · exact ⟨_, d.csr.mepc, d.csr.mcause, d.csr.mtval, _, _, _, _, _, g, rfl⟩
    · exact ⟨_, _, _, _, d.csr.sepc, d.csr.scause, d.csr.stval, _, _, g, rfl⟩
  · rw [(trap_saved (markFsDirty d) excIllegalInsn tval).mstatus, hto]
    exact trapStatus_mark _ _ _ hi

/-! ## Steps -/

section Steps

variable [NetDevice] [HostFp] {c d : Cpu} {word insn : U32}

/-- A step is illegal when the instruction it has fetched is. -/
theorem Fetches.stepIllegal (hf : Fetches c word insn d) : StepIllegal c ↔ ∃ m tval,
    execInsn insn c.pc (c.pc + insnBytes (isCompressed word)) (logInsn word d) = .error () (trap m excIllegalInsn tval) := by
  unfold StepIllegal
  rw [stepBody_fetched hf.fetch hf.expand]
  cases hexec : execInsn insn c.pc (c.pc + insnBytes (isCompressed word)) (logInsn word d) with
  | ok nextPc e =>
    rw [bind_of_ok hexec]
    constructor
    · rintro ⟨m, tval, h⟩
      cases h
    · rintro ⟨m, tval, h⟩
      cases h
  | error u e =>
    rw [bind_of_error hexec]
    simp only [EStateM.Result.error.injEq]

theorem execFp_refused {e : Cpu} (h : (rv64FpExec insn e).1 = .illegal) (nextPc : U64) :
    execFp insn nextPc e = .error () (trap (markFsDirty e) excIllegalInsn (insn.setWidth 64)) := by
  unfold execFp
  cases hr : rv64FpExec insn e with
  | mk r e' =>
    rw [hr] at h
    obtain rfl : r = .illegal := h
    rw [rv64FpExec_left hr]
    rfl

theorem execFp_stops_illegal (nextPc : U64) (e : Cpu) :
    (∃ m tval, execFp insn nextPc e = .error () (trap m excIllegalInsn tval)) ↔ (rv64FpExec insn e).1 = .illegal := by
  constructor
  · rintro ⟨m, tval, h⟩
    rw [execFp_illegal h]
  · intro h
    exact ⟨_, _, execFp_refused h nextPc⟩

omit [NetDevice] [HostFp] in
/-- The CSRs of the FPU are there in every state. -/
theorem csrRead_fcsr {csr : BitVec 12} (h : fcsrMask csr ≠ none) (c : Cpu) : csrRead c csr ≠ none := by
  have hcsr : csr = 0x001 ∨ csr = 0x002 ∨ csr = 0x003 := by
    unfold fcsrMask at h
    split at h
    next h1 => exact .inl (BitVec.eq_of_toNat_eq h1)
    next h2 => exact .inr (.inl (BitVec.eq_of_toNat_eq h2))
    next h3 => exact .inr (.inr (BitVec.eq_of_toNat_eq h3))
    next => exact absurd rfl h
  rcases hcsr with rfl | rfl | rfl <;> exact nofun

theorem Fetches.stepIllegal_fp (hf : Fetches c word insn d) (hfp : IsFp insn) : StepIllegal c ↔ ¬ FpImplemented insn := by
  rw [hf.stepIllegal, execInsn_fpOpcode hfp, execFp_stops_illegal, rv64FpExec_illegal_iff]

/-- **Whether floating point is illegal depends on the encoding alone**, and what it does then is a trap and FS = Dirty. -/
theorem fpUngated (hf : Fetches c word insn d) : FpUngated c (logInsn word d) insn where
  illegal := hf.stepIllegal_fp
  csr := by
    rintro ⟨hcsr, hmask⟩
    rw [hf.stepIllegal, execInsn_csr hcsr]
    rintro ⟨m, tval, h⟩
    obtain ⟨old, hold⟩ := Option.ne_none_iff_exists'.1 (csrRead_fcsr hmask (logInsn word d))
    obtain ⟨e, hok, -⟩ := execCsr_some hold (c.pc + insnBytes (isCompressed word))
    rw [hok] at h
    cases h
  keeps := by
    intro hfp hill
    rw [hf.stepIllegal, execInsn_fpOpcode hfp] at hill
    have hrefused := execFp_refused ((execFp_stops_illegal _ _).1 hill) (c.pc + insnBytes (isCompressed word))
    rw [hf.rv64Step_error ((execInsn_fpOpcode hfp _ _ _).trans hrefused)]
    exact trappedBut_mark (logInsn word d) (insn.setWidth 64)
  call := fun _ m => rv64FpExec_illegal_iff insn m
  callKeeps := by
    intro m e h
    rw [rv64FpExec_left h]
    exact ⟨_, rfl, fun i hi => fsBits_mark _ hi⟩

end Steps

section Instances

local instance gateNet : NetDevice := NetDevice.silent
local instance gateFp : HostFp := HostFp.zero

/-- User mode with FS Off, about to execute `word`; translation is off. -/
def userFsOff (word : U32) : Cpu := { userMode word with csr := { (userMode word).csr with mstatus := 0 } }

theorem userFsOff_fetches {word : U32} (h : isCompressed word = false) :
    Fetches (userFsOff word) word word (userFsOff word) := by
  have hbare : satpMode (userFsOff word).csr.satp = satpModeBare := show satpMode 0 = satpModeBare by decide
  have hmiss : loadFast (userFsOff word) ramBase 4 .exec = none := rfl
  have hmem : ((Mem.write (fun _ => 0) 0 4 (word.setWidth 64)).read (ramBase - ramBase) 4).setWidth 32 = word := by
    rw [BitVec.sub_self]
    exact Mem.read_word _ 0 word
  exact fetches_word rfl rfl (rv64Translate_bare hbare _ .exec) hmiss (show crossesPage ramBase 4 = false by decide)
    (show inRam 0x1000 ramBase = true by decide) hmem h

/-- A word that is not implemented. -/
theorem fpUngated_reserved :
    FpUngated (userFsOff 0xFE000053) (logInsn 0xFE000053 (userFsOff 0xFE000053)) 0xFE000053 :=
  fpUngated (userFsOff_fetches rfl)

/-- FMV.W.X f0, x0. -/
theorem not_fpGated_off : ∃ c word insn d, Fetches c word insn d ∧ ¬ FpGated c (logInsn word d) insn := by
  have hf := @userFsOff_fetches 0xF0000053 rfl
  refine ⟨_, _, _, _, hf, fun hgate => ?_⟩
  have hfp : IsFp 0xF0000053 := by decide
  have himpl : FpImplemented 0xF0000053 := True.intro
  exact (hf.stepIllegal_fp hfp).1 (hgate.off (by decide) (.inl hfp)) himpl

end Instances

end PgLinux
