import PgLinux.Rules
/-!
# Privilege — the privilege level over whole runs

Traps go to S or M and SRET goes to U or S; MRET takes its level from `mstatus.MPP`, which software writes as it likes.
-/
namespace PgLinux

open Prog

def PrivWf (c : Cpu) : Prop := c.priv = privU ∨ c.priv = privS ∨ c.priv = privM

theorem PrivWf.lt {c : Cpu} (h : PrivWf c) : c.priv.toNat < 4 := by
  obtain h | h | h := h <;> rw [h] <;> decide

/-- `mstatus.MPP`. -/
def Cpu.mpp (c : Cpu) : U64 := c.csr.mstatus >>> 11 &&& 3

/-- The next step is an MRET of machine mode with the reserved level in MPP. -/
def MretReserved [NetDevice] (c : Cpu) : Prop :=
  c.priv = privM ∧ c.mpp = 2 ∧ ∃ word d, Fetches c word 0x30200073 d

theorem trap_privWf (c : Cpu) (cause tval : U64) : PrivWf (trap c cause tval) := by
  unfold trap
  dsimp only
  split
  · exact .inr (.inl rfl)
  · exact .inr (.inr rfl)

/-- The level is kept, or becomes a proper one. -/
def PrivMove (c c' : Cpu) : Prop := PrivWf c → PrivWf c'

instance : IsPreorder Cpu PrivMove where
  refl _ := id
  trans _ _ _ h h' := h' ∘ h

theorem privMove_of_priv {c c' : Cpu} (h : c'.priv = c.priv) : PrivMove c c' := by
  unfold PrivMove PrivWf
  rw [h]
  exact id

theorem csrWrite_priv (c : Cpu) (csr : BitVec 12) (val : U64) : (csrWrite c csr val).priv = c.priv := by
  obtain ⟨r, f, t, j, h⟩ := csrWrite_frame c csr val
  rw [h]

theorem mret_privWf {c : Cpu} : PrivWf (mret c) ↔ c.mpp ≠ 2 := by
  have hval : (mret c).priv = c.mpp.setWidth 8 := rfl
  have hlt : c.mpp.toNat < 4 := by
    unfold Cpu.mpp
    rw [BitVec.toNat_and]
    exact Nat.lt_of_le_of_lt Nat.and_le_right (by decide)
  unfold PrivWf
  rw [hval]
  have hcases : c.mpp = 0 ∨ c.mpp = 1 ∨ c.mpp = 2 ∨ c.mpp = 3 := by
    have h0 : (0 : U64).toNat = 0 := rfl
    have h1 : (1 : U64).toNat = 1 := rfl
    have h2 : (2 : U64).toNat = 2 := rfl
    have h3 : (3 : U64).toNat = 3 := rfl
    rw [← BitVec.toNat_inj, ← BitVec.toNat_inj, ← BitVec.toNat_inj, ← BitVec.toNat_inj, h0, h1, h2, h3]
    omega
  obtain h | h | h | h := hcases <;> rw [h] <;> decide

theorem bit_eq_zero_or (m : U64) (i : Nat) : bit m i = 0 ∨ bit m i = 1 := by
  have hlt : (bit m i).toNat < 2 := by
    unfold bit
    rw [BitVec.toNat_and]
    exact Nat.lt_of_le_of_lt Nat.and_le_right (by decide)
  have h0 : (0 : U64).toNat = 0 := rfl
  have h1 : (1 : U64).toNat = 1 := rfl
  rw [← BitVec.toNat_inj, ← BitVec.toNat_inj, h0, h1]
  omega

theorem sret_priv (c : Cpu) : (sret c).priv = (bit c.csr.mstatus 8).setWidth 8 := by
  unfold sret backfill
  dsimp only
  split <;> rfl

theorem sret_privWf (c : Cpu) : PrivWf (sret c) := by
  unfold PrivWf
  rw [sret_priv]
  obtain h | h := bit_eq_zero_or c.csr.mstatus 8 <;> rw [h] <;> decide

theorem access_priv {α : Type} {m : Access α} (h : Leads AccessFrame m) : Leads PrivMove m :=
  h.mono fun c c' hf => by
    obtain ⟨t, b, d, rfl⟩ := hf
    exact privMove_of_priv rfl

section Moves

variable [NetDevice]

theorem privMove_rules : StepRules PrivMove where
  core h := privMove_of_priv h.priv
  load va size access := access_priv (rv64CpuLoad_frame va size access)
  store va size val := access_priv (cpuStore_frame va size val)
  trap c cause tval := fun _ => trap_privWf c cause tval
  csrWrite c csr val := privMove_of_priv (csrWrite_priv c csr val)
  tlbFlush _ := privMove_of_priv rfl
  jitFlush _ := privMove_of_priv rfl

/-- The fetch leaves mode and CSRs alone. -/
theorem fetchInsn_frame {c d : Cpu} {word : U32} (hfetch : fetchInsn c.pc (checkBreak c) = .ok word d) :
    AccessFrame c d := by
  have h4 := rv64CpuLoad_frame c.pc 4 .exec (checkBreak c)
  unfold fetchInsn at hfetch
  cases hr : rv64CpuLoad c.pc 4 .exec (checkBreak c) with
  | ok v e =>
    rw [hr] at hfetch h4
    cases hfetch
    exact trans_of AccessFrame (checkBreak_frame c) h4
  | error exc e =>
    rw [hr] at hfetch h4
    have h2 := rv64CpuLoad_frame c.pc 2 .exec e
    dsimp only at hfetch
    cases hr2 : rv64CpuLoad c.pc 2 .exec e with
    | error exc2 e2 =>
      rw [hr2] at hfetch
      cases hfetch
    | ok v e2 =>
      rw [hr2] at hfetch h2
      dsimp only at hfetch
      split at hfetch
      · cases hfetch
      · cases hfetch
        exact trans_of AccessFrame (checkBreak_frame c) (trans_of AccessFrame h4 h2)

theorem Fetches.frame {c d : Cpu} {word insn : U32} (h : Fetches c word insn d) : AccessFrame c d := fetchInsn_frame h.fetch

variable [HostFp]

theorem execInsn_mret {c : Cpu} (hp : c.priv = privM) (pc nextPc : U64) :
    execInsn 0x30200073 pc nextPc c = .ok c.csr.mepc (mret c) := by
  show (if c.priv < privM then illegal 0x30200073 else do set (mret c); return c.csr.mepc : Exec U64) c = _
  rw [if_neg (by rw [hp]; decide)]
  rfl

/-- MRET in machine mode goes to the level in MPP. -/
theorem mret_step {c d : Cpu} {word : U32} (hf : Fetches c word 0x30200073 d) (hp : c.priv = privM) :
    PrivWf (rv64Step c) ↔ c.mpp ≠ 2 := by
  have hframe := hf.frame
  obtain ⟨t, b, g, rfl⟩ := hframe
  rw [hf.rv64Step_ok (execInsn_mret (by exact hp) _ _)]
  exact mret_privWf (c := logInsn word { c with tlb := t, bus := b, dbg := g })

/-- A return ends at a proper level, unless it is an MRET of machine mode. -/
theorem execReturn_privWf {insn : U32} (hret : IsReturn insn) {c : Cpu} (h : insn = 0x30200073 → c.priv < privM)
    (pc nextPc : U64) : PrivWf (final (execInsn insn pc nextPc c)) := by
  obtain rfl | rfl := hret
  · show PrivWf (final ((if c.priv < privM then illegal 0x30200073
      else do set (mret c); return c.csr.mepc : Exec U64) c))
    rw [if_pos (h rfl)]
    exact trap_privWf c _ _
  · show PrivWf (final ((if c.priv < privS then illegal 0x10200073
      else do set (sret c); return c.csr.sepc : Exec U64) c))
    split
    · exact trap_privWf c _ _
    · exact sret_privWf c

/-- **A step keeps the level proper unless it is an MRET to the reserved level.** -/
theorem rv64Step_privWf {c : Cpu} (h : PrivWf c) : PrivWf (rv64Step c) ↔ ¬ MretReserved c := by
  constructor
  · rintro hstep ⟨hp, hmpp, word, d, hf⟩
    exact (mret_step hf hp).1 hstep hmpp
  · intro hres
    rcases privMove_rules.rv64Step_fetches c with hm | ⟨word, insn, d, hret, hf⟩
    · exact hm h
    by_cases hmret : insn = 0x30200073 ∧ c.priv = privM
    · obtain ⟨rfl, hp⟩ := hmret
      exact (mret_step hf hp).2 fun hmpp => hres ⟨hp, hmpp, word, d, hf⟩
    · have hpriv : (logInsn word d).priv = c.priv := by
        obtain ⟨t, b, g, rfl⟩ := hf.frame
        rfl
      have hlow : insn = 0x30200073 → (logInsn word d).priv < privM := by
        intro hi
        rw [hpriv]
        obtain hp | hp | hp := h
        · rw [hp]
          decide
        · rw [hp]
          decide
        · exact absurd ⟨hi, hp⟩ hmret
      have hend := execReturn_privWf hret hlow c.pc (c.pc + insnBytes (isCompressed word))
      cases hexec : execInsn insn c.pc (c.pc + insnBytes (isCompressed word)) (logInsn word d) with
      | ok nextPc e =>
        rw [hexec] at hend
        rw [hf.rv64Step_ok hexec]
        exact hend
      | error u e =>
        rw [hexec] at hend
        rw [hf.rv64Step_error hexec]
        exact hend

/-! ## Runs -/

/-- Apart from MRET to the reserved level, every move keeps the level proper. -/
theorem machineStep_privWf {c c' : Cpu} (hs : MachineStep c c') (h : PrivWf c) :
    PrivWf c' ↔ (c' = rv64Step c → ¬ MretReserved c) := by
  constructor
  · rintro h' rfl
    exact (rv64Step_privWf h).1 h'
  · intro hres
    cases hs with
    | step => exact (rv64Step_privWf h).2 (hres rfl)
    | jit undef => exact privMove_rules.jitExec (fun _ _ => privMove_of_priv rfl) undef c h
    | interrupts => exact privMove_rules.checkInterrupts (fun _ _ => privMove_of_priv rfl) c h
    | tick => exact h

/-- No move of the run is an MRET of machine mode to the reserved level. -/
def AvoidsReserved (c c' : Cpu) : Prop := c' = rv64Step c → ¬ MretReserved c

theorem privWf_iff_chain : ∀ (cs : List Cpu) (c : Cpu), PrivWf c → List.IsChain MachineStep (c :: cs) →
    ((∀ d ∈ c :: cs, PrivWf d) ↔ List.IsChain AvoidsReserved (c :: cs))
  | [], c, hc, _ => by
    refine ⟨fun _ => .singleton c, fun _ d hd => ?_⟩
    obtain rfl := List.mem_singleton.1 hd
    exact hc
  | d :: cs, c, hc, hrun => by
    obtain ⟨hstep, hrun⟩ := List.isChain_cons_cons.1 hrun
    have hmove := machineStep_privWf hstep hc
    rw [List.isChain_cons_cons, List.forall_mem_cons]
    constructor
    · rintro ⟨-, hall⟩
      have hd := hall d (List.mem_cons_self ..)
      exact ⟨hmove.1 hd, (privWf_iff_chain cs d hd hrun).1 hall⟩
    · rintro ⟨havoid, hrest⟩
      exact ⟨hc, (privWf_iff_chain cs d (hmove.2 havoid) hrun).2 hrest⟩

/-- **In a run from reset, every level is U, S or M exactly when no move is an MRET of machine mode with the reserved
level in MPP.** -/
theorem privWf_iff (ram : Mem) (ramSize : U64) (cs : List Cpu)
    (hrun : List.IsChain MachineStep (rv64Init ram ramSize :: cs)) :
    (∀ d ∈ rv64Init ram ramSize :: cs, PrivWf d) ↔ List.IsChain AvoidsReserved (rv64Init ram ramSize :: cs) :=
  privWf_iff_chain cs _ (.inr (.inr rfl)) hrun

end Moves

/-! ## The reserved level -/

section Reserved

local instance reservedNet : NetDevice := NetDevice.silent
local instance reservedFp : HostFp := HostFp.zero

/-- LUI x1, 1; CSRRW x0, mstatus, x1; MRET. -/
def reservedProgram : List U32 := [0x000010B7, 0x30009073, 0x30200073]

def reservedRam : Mem := programAt reservedProgram 0 fun _ => 0

/-- MPP = 2 is written as it stands, and MRET runs at level 2. -/
theorem not_privWf_mret : ∃ c, MachineRun (rv64Init reservedRam 0x80000000) c ∧ ¬ PrivWf c := by
  refine ⟨stepTimes 3 (rv64Init reservedRam 0x80000000), stepTimes_run 3 _, ?_⟩
  have hpriv : (stepTimes 3 (rv64Init reservedRam 0x80000000)).priv = 2 := by decide +kernel
  unfold PrivWf
  rw [hpriv]
  decide

/-- AUIPC x1; ADDI x1, x1, 16; CSRRW x0, mepc, x1; MRET, to user mode; ECALL. -/
def callProgram : List U32 := [0x00000097, 0x01008093, 0x34109073, 0x30200073, 0x00000073]

def callRam : Mem := programAt callProgram 0 fun _ => 0

/-- To user mode and back. -/
theorem privWf_call : let c := rv64Init callRam 0x80000000
    (stepTimes 4 c).priv = privU ∧ (stepTimes 5 c).priv = privM ∧ ∀ d ∈ c :: stepStates 5 c, PrivWf d := by
  intro c
  have hmpp : ∀ i < 5, (stepTimes i c).mpp ≠ 2 := by decide +kernel
  have havoids : List.IsChain AvoidsReserved (c :: stepStates 5 c) :=
    stepStates_isChain 5 c fun i hi _ hres => hmpp i hi hres.2.1
  exact ⟨by decide +kernel, by decide +kernel,
    (privWf_iff callRam 0x80000000 (stepStates 5 c) (stepStates_steps 5 c)).2 havoids⟩

end Reserved

end PgLinux
