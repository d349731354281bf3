import PgLinux.BlockCode
/-!
# ZeroRegister — `x0` reads as zero

The interpreter guards its register writes with `WR`, and a block writes no guest register 0.  The FPU file does neither:
its conversions, comparisons, moves and classifications assign `cpu->x[rd]`.
-/
namespace PgLinux

open Prog

/-! ## Opcodes of compressed instructions -/

theorem opcode_or (a b : U32) : opcode (a ||| b) = opcode a ||| opcode b := by
  unfold opcode
  ext i
  simp

theorem opcode_and (a b : U32) : opcode (a &&& b) = opcode a &&& opcode b := by
  unfold opcode
  ext i
  simp

theorem opcode_shl (a : U32) {n : Nat} (h : 7 ≤ n) : opcode (a <<< n) = 0#7 := by
  unfold opcode
  ext i hi
  have hlt : i < n := by omega
  simp [hlt]

@[simp] theorem opcode_encI (imm rs1 f3 rd op : U32) : opcode (encI imm rs1 f3 rd op) = opcode op := by
  simp [encI, opcode_or, opcode_shl]

@[simp] theorem opcode_encS (off rs2 rs1 f3 op : U32) : opcode (encS off rs2 rs1 f3 op) = opcode op := by
  simp [encS, opcode_or, opcode_shl]

@[simp] theorem opcode_encR (f7 rs2 rs1 f3 rd op : U32) : opcode (encR f7 rs2 rs1 f3 rd op) = opcode op := by
  simp [encR, opcode_or, opcode_shl]

theorem opcode_uncompressBranch (signOff : U32 → U32) (f3 : U32) (ci : U16) :
    opcode (uncompressBranch signOff f3 ci) = 0x63 := by
  simp only [uncompressBranch, opcode_or, opcode_shl, Nat.reduceLeDiff]
  decide

/-- The instructions a compressed one may stand for. -/
def rvcOpcodes : List (BitVec 7) := [0x03, 0x07, 0x13, 0x1B, 0x23, 0x27, 0x33, 0x37, 0x3B, 0x63, 0x67, 0x6F, 0x73]

theorem uncompress0_opcode {ci : U16} {insn : U32} (h : uncompress0 ci = some insn) : opcode insn ∈ rvcOpcodes := by
  unfold uncompress0 at h
  dsimp only at h
  split at h
  all_goals first | (obtain rfl := Option.some.inj h; simp only [opcode_encI, opcode_encS]; decide) | cases h

theorem uncompressAlu_opcode {ci : U16} {insn : U32} (h : uncompressAlu ci = some insn) : opcode insn ∈ rvcOpcodes := by
  unfold uncompressAlu at h
  dsimp only at h
  split at h
  iterate 3 (obtain rfl := Option.some.inj h; simp only [opcode_encI]; decide)
  split at h
  all_goals first | (obtain rfl := Option.some.inj h; simp only [opcode_encR]; decide) | cases h

theorem uncompress1_opcode {signOff : U32 → U32} {ci : U16} {insn : U32} (h : uncompress1 signOff ci = some insn) :
    opcode insn ∈ rvcOpcodes := by
  unfold uncompress1 at h
  dsimp only at h
  split at h
  case h_4 =>
    split at h
    · obtain rfl := Option.some.inj h
      simp only [opcode_encI]
      decide
    · obtain rfl := Option.some.inj h
      have hmask : opcode ((0xFFFFF000 : ℕ) : U32) = 0#7 := by decide
      simp only [opcode_or, opcode_and, opcode_shl, Nat.reduceLeDiff, hmask, BitVec.and_zero]
      decide
  case h_5 => exact uncompressAlu_opcode h
  case h_6 =>
    obtain rfl := Option.some.inj h
    simp only [opcode_or, opcode_shl, Nat.reduceLeDiff]
    decide
  case h_7 =>
    obtain rfl := Option.some.inj h
    rw [opcode_uncompressBranch]
    decide
  case h_8 =>
    obtain rfl := Option.some.inj h
    rw [opcode_uncompressBranch]
    decide
  all_goals (obtain rfl := Option.some.inj h; simp only [opcode_encI]; decide)

theorem uncompress2_opcode (ci : U16) : opcode (uncompress2 ci) ∈ rvcOpcodes := by
  unfold uncompress2
  dsimp only
  split
  case h_5 =>
    unfold uncompressJump
    dsimp only
    split_ifs
    all_goals first | (simp only [opcode_encI, opcode_encR]; decide) | decide
  all_goals simp only [opcode_encI, opcode_encS]; decide

/-- **A compressed instruction is never floating-point arithmetic.** -/
theorem uncompressWith_opcode {signOff : U32 → U32} {ci : U16} {insn : U32} (h : uncompressWith signOff ci = some insn) :
    opcode insn ∈ rvcOpcodes := by
  unfold uncompressWith at h
  split at h
  · exact uncompress0_opcode h
  · exact uncompress1_opcode h
  · obtain rfl := Option.some.inj h
    exact uncompress2_opcode ci
  · cases h

theorem uncompress1_same (signOff signOff' : U32 → U32) (ci : U16) : uncompress1 signOff ci = uncompress1 signOff' ci ∨
    ∃ f3, uncompress1 signOff' ci = some (uncompressBranch signOff' f3 ci) := by
  unfold uncompress1
  dsimp only
  generalize (ci.extractLsb' 13 3).toNat = q
  match q with
  | 0 | 1 | 2 | 3 | 4 | 5 => exact .inl rfl
  | 6 => exact .inr ⟨0, rfl⟩
  | _ + 7 => exact .inr ⟨1, rfl⟩

/-- **Two expansions differ in branches only**, whose offset is all they extend. -/
theorem uncompressWith_eq {signOff signOff' : U32 → U32} {ci : U16} {insn insn' : U32}
    (h : uncompressWith signOff ci = some insn) (h' : uncompressWith signOff' ci = some insn') :
    insn = insn' ∨ opcode insn' = 0x63 := by
  unfold uncompressWith at h h'
  generalize (ci.extractLsb' 0 2).toNat = q at h h'
  match q with
  | 0 | 2 => exact .inl (Option.some.inj (h.symm.trans h'))
  | 1 =>
    rcases uncompress1_same signOff signOff' ci with hsame | ⟨f3, hbranch⟩
    · exact .inl (Option.some.inj (h.symm.trans (hsame.trans h')))
    · obtain rfl := Option.some.inj (hbranch.symm.trans h')
      exact .inr (opcode_uncompressBranch signOff' f3 ci)
  | _ + 3 => cases h

/-! ## The words that write `x0` -/

/-- FCVT, FMV and FCLASS to an integer register, FEQ, FLE and FLT, with rd = x0.  FLT of a register with itself writes 0. -/
def FpToX0 (insn : U32) : Prop :=
  opcode insn = 0x53 ∧ rd insn = 0 ∧ ((funct7 insn).toNat ∈ [0x60, 0x61, 0x70, 0x71] ∨
    (funct7 insn).toNat ∈ [0x50, 0x51] ∧ (funct3 insn = 2 ∨ funct3 insn = 0 ∨ funct3 insn = 1 ∧ rs1 insn ≠ rs2 insn))

instance (insn : U32) : Decidable (FpToX0 insn) := inferInstanceAs (Decidable (_ ∧ _ ∧ _))

theorem rv64Uncompress_fpToX0 {ci : U16} {insn : U32} (h : rv64Uncompress ci = some insn) : ¬ FpToX0 insn := by
  intro hx
  have hmem := uncompressWith_opcode h
  rw [hx.1] at hmem
  exact absurd hmem (by decide)

theorem sljitUncompress_fpToX0 (ci : U16) : ¬ FpToX0 (sljitUncompress ci) := by
  unfold sljitUncompress
  cases h : uncompressWith _ ci with
  | none => decide
  | some insn =>
    intro hx
    have hmem := uncompressWith_opcode h
    rw [Option.getD_some, hx.1] at *
    exact absurd hmem (by decide)

/-! ## Moves that keep `x0` -/

def KeepsX0 (c c' : Cpu) : Prop := c.x 0 = 0 → c'.x 0 = 0

instance : IsPreorder Cpu KeepsX0 where
  refl _ := id
  trans _ _ _ h h' := h' ∘ h

theorem keepsX0_of_x {c c' : Cpu} (h : c'.x = c.x) : KeepsX0 c c' := by
  unfold KeepsX0
  rw [h]
  exact id

theorem keepsX0_access {α : Type} {m : Access α} (h : Leads AccessFrame m) : Leads KeepsX0 m :=
  h.mono fun c c' hf => by
    obtain ⟨t, b, d, rfl⟩ := hf
    exact keepsX0_of_x rfl

theorem wr_keepsX0 (c : Cpu) (rd : BitVec 5) (v : U64) : KeepsX0 c (c.wr rd v) := fun _ => by
  unfold Cpu.wr setAt
  simp

theorem setX_keepsX0 {rd : BitVec 5} {v : U64} (h : rd = 0 → v = 0) (c : Cpu) : KeepsX0 c (setX rd v c) := by
  intro hc
  show (if 0 = rd then v else c.x 0) = 0
  split
  next h0 => exact h h0.symm
  · exact hc

theorem trap_x (c : Cpu) (cause tval : U64) : (trap c cause tval).x = c.x := by
  obtain ⟨r, p, pc, d, h⟩ := trap_frame c cause tval
  rw [h]

theorem sret_x (c : Cpu) : (sret c).x = c.x := by
  unfold sret backfill
  dsimp only
  split <;> rfl

theorem trap_keepsX0 (c : Cpu) (cause tval : U64) : KeepsX0 c (trap c cause tval) := keepsX0_of_x (trap_x c cause tval)

theorem csrWrite_x (c : Cpu) (csr : BitVec 12) (val : U64) : (csrWrite c csr val).x = c.x := by
  obtain ⟨r, f, t, j, h⟩ := csrWrite_frame c csr val
  rw [h]

theorem keepsX0_rules [NetDevice] : ExecRules KeepsX0 where
  wr := wr_keepsX0
  reserve _ _ := keepsX0_of_x rfl
  load va size access := keepsX0_access (rv64CpuLoad_frame va size access)
  store va size val := keepsX0_access (cpuStore_frame va size val)
  trap := trap_keepsX0
  jitFlush _ := keepsX0_of_x rfl

theorem csrWriteChecked_keepsX0 (csr : BitVec 12) (val : U64) (c : Cpu) : KeepsX0 c (csrWriteChecked csr val c) := by
  refine keepsX0_of_x ?_
  unfold csrWriteChecked
  dsimp only
  split <;> exact csrWrite_x c csr val

/-- A comparison that can only write 0. -/
theorem setX_cmp_keepsX0 {w : Nat} {o : FpOps w} (hlt : ∀ a, o.lt a a = false) {insn : U32} {f7 : Nat}
    (h7 : (funct7 insn).toNat = f7) (hmem : f7 ∈ [0x50, 0x51]) (hop : opcode insn = 0x53) (hx : ¬ FpToX0 insn)
    {a b : BitVec w} (hab : rs1 insn = rs2 insn → a = b) {r : U64} (hr : fpCmp o (funct3 insn) a b = some r) (c : Cpu) :
    KeepsX0 c (setX (rd insn) r c) := by
  refine setX_keepsX0 (fun h0 => ?_) c
  have hcmp : ¬ (funct3 insn = 2 ∨ funct3 insn = 0 ∨ funct3 insn = 1 ∧ rs1 insn ≠ rs2 insn) := fun hcmp =>
    hx ⟨hop, h0, .inr ⟨h7 ▸ hmem, hcmp⟩⟩
  unfold fpCmp at hr
  split at hr
  next h3 => exact absurd (.inl (BitVec.eq_of_toNat_eq h3)) hcmp
  next h3 =>
    have hrs : rs1 insn = rs2 insn := by_contra fun hne => hcmp (.inr (.inr ⟨BitVec.eq_of_toNat_eq h3, hne⟩))
    rw [hab hrs, hlt] at hr
    exact (Option.some.inj hr).symm
  next h3 => exact absurd (.inr (.inl (BitVec.eq_of_toNat_eq h3))) hcmp
  next => cases hr

/-! ## Floating point -/

section HostOps

variable [HostFp]

theorem fpArithS_keepsX0 (hlt : ∀ a, HostFp.s.lt a a = false) {insn : U32} (hop : opcode insn = 0x53)
    (hx : ¬ FpToX0 insn) {c c' : Cpu} (h : fpArithS c insn = some c') : KeepsX0 c c' := by
  have hrd : (funct7 insn).toNat ∈ [0x60, 0x61, 0x70, 0x71] → rd insn = 0 → ∀ v : U64, v = 0 := fun h7 h0 =>
    absurd ⟨hop, h0, .inl h7⟩ hx
  unfold fpArithS at h
  dsimp only at h
  split at h
  case h_8 h7 =>
    obtain rfl := Option.some.inj h
    exact setX_keepsX0 (fun h0 => hrd (by rw [h7]; decide) h0 _) c
  case h_9 h7 =>
    obtain rfl := Option.some.inj h
    exact setX_keepsX0 (fun h0 => hrd (by rw [h7]; decide) h0 _) c
  case h_10 h7 =>
    obtain ⟨r, hr, rfl⟩ := Option.map_eq_some_iff.1 h
    exact setX_cmp_keepsX0 hlt h7 (by decide) hop hx (fun hrs => by rw [hrs]) hr c
  case h_6 =>
    obtain ⟨r, -, rfl⟩ := Option.map_eq_some_iff.1 h
    exact keepsX0_of_x rfl
  all_goals first | (obtain rfl := Option.some.inj h; exact keepsX0_of_x rfl) | cases h

theorem fpArithD_keepsX0 (hlt : ∀ a, HostFp.d.lt a a = false) {insn : U32} (hop : opcode insn = 0x53)
    (hx : ¬ FpToX0 insn) {c c' : Cpu} (h : fpArithD c insn = some c') : KeepsX0 c c' := by
  have hrd : (funct7 insn).toNat ∈ [0x60, 0x61, 0x70, 0x71] → rd insn = 0 → ∀ v : U64, v = 0 := fun h7 h0 =>
    absurd ⟨hop, h0, .inl h7⟩ hx
  unfold fpArithD at h
  dsimp only at h
  split at h
  case h_6 =>
    obtain ⟨r, -, rfl⟩ := Option.map_eq_some_iff.1 h
    exact keepsX0_of_x rfl
  case h_9 h7 =>
    obtain ⟨r, hr, rfl⟩ := Option.map_eq_some_iff.1 h
    exact setX_cmp_keepsX0 hlt h7 (by decide) hop hx (fun hrs => by rw [hrs]) hr c
  case h_10 h7 =>
    obtain rfl := Option.some.inj h
    exact setX_keepsX0 (fun h0 => hrd (by rw [h7]; decide) h0 _) c
  case h_12 h7 =>
    obtain rfl := Option.some.inj h
    exact setX_keepsX0 (fun h0 => hrd (by rw [h7]; decide) h0 _) c
  all_goals first | (obtain rfl := Option.some.inj h; exact keepsX0_of_x rfl) | cases h

theorem fpFmaExec_keepsX0 {insn : U32} {c c' : Cpu} (h : fpFmaExec c insn = some c') : KeepsX0 c c' := by
  unfold fpFmaExec at h
  dsimp only at h
  split at h
  · obtain rfl := Option.some.inj h
    exact keepsX0_of_x rfl
  · split at h
    · obtain rfl := Option.some.inj h
      exact keepsX0_of_x rfl
    · cases h

end HostOps

/-- The comparisons of the host have no number below itself. -/
def LtIrrefl (fp : HostFp) : Prop := (∀ a, fp.s.lt a a = false) ∧ ∀ a, fp.d.lt a a = false

theorem fpCompute_keepsX0 {fp : HostFp} (hlt : LtIrrefl fp) {insn : U32} (hx : ¬ FpToX0 insn) {c c' : Cpu}
    (h : fpCompute c insn = some c') : KeepsX0 c c' := by
  unfold fpCompute at h
  split at h
  next hop =>
    rcases Option.or_eq_some_iff.1 h with hs | ⟨-, hd⟩
    · exact fpArithS_keepsX0 hlt.1 hop hx hs
    · exact fpArithD_keepsX0 hlt.2 hop hx hd
  next => exact fpFmaExec_keepsX0 h

/-! ## The operations of one instruction -/

/-- Neither a write of guest register 0 nor a call of the FPU. -/
def SljitOp.sparesX0 : SljitOp → Bool
  | .mov _ dst _ | .op2 _ dst _ _ => dst != .x 0
  | .icall f => f != .fpExec
  | _ => true

theorem sparesX0_of_confined {op : SljitOp} (h : op.confined true = true) : op.sparesX0 = true := by
  have hdst : ∀ dst : Operand, dst.confined true = true → (dst != .x 0) = true := by
    intro dst hd
    cases dst with
    | x r => simpa [Operand.confined] using hd
    | _ => rfl
  cases op with
  | mov t dst src => exact hdst dst h
  | op2 op dst a b => exact hdst dst h
  | icall f => exact h
  | _ => rfl

/-- Apart from floating point, no instruction calls the FPU or writes guest register 0. -/
theorem emitInsn_sparesX0 (insn : U32) (pc : U64) (compressed : Bool) :
    (emitInsn insn pc compressed).ops.all SljitOp.sparesX0 = true ∨ emitInsn insn pc compressed = emitFp insn pc :=
  (emitInsn_confined insn pc compressed).imp_left fun h =>
    List.all_eq_true.2 fun op hop => sparesX0_of_confined (List.all_eq_true.1 h op hop)

theorem checkBreak_keepsX0 (c : Cpu) : KeepsX0 c (checkBreak c) := by
  obtain ⟨t, b, d, h⟩ := checkBreak_frame c
  rw [h]
  exact keepsX0_of_x rfl

theorem expandInsn_fpToX0 {word insn : U32} (hx : ¬ FpToX0 word) {c d : Cpu} (h : expandInsn word c = .ok insn d) :
    ¬ FpToX0 insn := by
  unfold expandInsn at h
  by_cases hcomp : isCompressed word = true
  · rw [if_pos hcomp] at h
    cases he : rv64Uncompress (word.setWidth 16) with
    | none =>
      rw [he] at h
      cases h
    | some exp =>
      rw [he] at h
      cases h
      exact rv64Uncompress_fpToX0 he
  · rw [if_neg hcomp] at h
    cases h
    exact hx

section Interpreter

variable [NetDevice]

theorem rv64FpExec_keepsX0 {fp : HostFp} (hlt : LtIrrefl fp) {insn : U32} (hx : ¬ FpToX0 insn) (c : Cpu) :
    KeepsX0 c (rv64FpExec insn c).2 :=
  keepsX0_rules.rv64FpExec (fun _ => keepsX0_of_x rfl) (fun _ _ => keepsX0_of_x rfl)
    (fun _ hd => fpCompute_keepsX0 hlt hx hd)

theorem execInsn_keepsX0 {fp : HostFp} (hlt : LtIrrefl fp) {insn : U32} (hx : ¬ FpToX0 insn) (pc nextPc : U64) :
    Leads KeepsX0 (execInsn insn pc nextPc) := by
  have hsystem : Leads KeepsX0 (execSystem insn nextPc) :=
    keepsX0_rules.toLoad.execSystem (fun _ c => ⟨keepsX0_of_x rfl, keepsX0_of_x (sret_x c)⟩) (fun _ => keepsX0_of_x rfl)
      (fun _ => keepsX0_of_x rfl) nextPc
  exact keepsX0_rules.execInsn (fun _ => rv64FpExec_keepsX0 hlt hx)
    (fun _ => leads_ite hsystem (keepsX0_rules.toLoad.execCsr csrWriteChecked_keepsX0 insn nextPc)) pc

/-- **A step keeps `x0` unless its word is floating-point with an integer result for `x0`.** -/
theorem rv64Step_keepsX0 {fp : HostFp} (hlt : LtIrrefl fp) {word : U32} (hx : ¬ FpToX0 word) {c : Cpu}
    (hf : ∀ w d, fetchInsn c.pc (checkBreak c) = .ok w d → w = word) : KeepsX0 c (rv64Step c) := by
  have hretire : ∀ nextPc, Leads KeepsX0 (modify (retire nextPc) : Exec Unit) := fun _ =>
    leads_modify fun _ => keepsX0_of_x rfl
  rcases keepsX0_rules.rv64Step_fetches checkBreak_keepsX0 (fun _ _ => keepsX0_of_x rfl) c with
    h | ⟨w, insn, d, hfetch, hd⟩
  · exact h
  · obtain rfl := hf w d hfetch.fetch
    have hinsn : ¬ FpToX0 insn := expandInsn_fpToX0 hx (c := d) (d := d) (by rw [hfetch.expand]; rfl)
    rw [hfetch.rv64Step]
    exact trans_of KeepsX0 hd (leads_bind (execInsn_keepsX0 hlt hinsn _ _) hretire _)

/-! ## Blocks -/

section Calls

variable [HostFp]

theorem sparesX0_block {ops : List SljitOp} (h : ops.all SljitOp.sparesX0 = true) : BlockRules KeepsX0 ops where
  pc _ _ := keepsX0_of_x rfl
  write op hop r hdest v c := by
    have hspare := List.all_eq_true.1 h op hop
    refine setX_keepsX0 (fun hr => ?_) c
    subst hr
    cases op <;> simp [SljitOp.dest, SljitOp.sparesX0] at hdest hspare <;> exact absurd hdest hspare
  load va size access := keepsX0_access (rv64CpuLoad_frame va size access)
  store va size val := keepsX0_access (cpuStore_frame va size val)
  fpExec hm := absurd (List.all_eq_true.1 h _ hm) (by decide)

end Calls

/-- **The operations of a word keep `x0` unless the word is floating-point with an integer result for `x0`.** -/
theorem emitWord_keepsX0 {fp : HostFp} (hlt : LtIrrefl fp) {word : U32} (hx : ¬ FpToX0 word) (disabled : BitVec 128)
    (pc : U64) (s : JState) : KeepsX0 s.cpu (runOps none (emitWord disabled word pc).ops s).2.cpu := by
  have hpc : KeepsX0 s.cpu { s.cpu with pc := pc } := keepsX0_of_x rfl
  have hinsn : ∀ insn, ¬ FpToX0 insn → ∀ compressed,
      KeepsX0 s.cpu (runOps none (emitInsn insn pc compressed).ops s).2.cpu := by
    intro insn hi compressed
    rcases emitInsn_sparesX0 insn pc compressed with h | h
    · exact (sparesX0_block h).runOps none s
    · obtain ⟨t, ht, hrun⟩ := runOps_emitFp insn pc s rfl
      rw [h, hrun, ht]
      exact trans_of KeepsX0 hpc (rv64FpExec_keepsX0 hlt hi _)
  have hword : ¬ FpToX0 (if isCompressed word then sljitUncompress (word.setWidth 16) else word) := by
    split
    · exact sljitUncompress_fpToX0 _
    · exact hx
  unfold emitWord
  dsimp only
  generalize (if isCompressed word then sljitUncompress (word.setWidth 16) else word) = insn at hword
  split
  · exact refl_of KeepsX0 s.cpu
  · split
    · exact refl_of KeepsX0 s.cpu
    · exact hinsn insn hword _

end Interpreter

/-! ## The words that do write it -/

/-- What C says about the operations at 0 and 1, and about no number being below itself. -/
structure FpOps.Ordinary {w : Nat} (o : FpOps w) (one : BitVec w) : Prop where
  lt_irrefl : ∀ a, o.lt a a = false
  lt_one : o.lt 0 one = true
  le_one : o.le one one = true
  eq_one : o.eq one one = true
  toInt32_one : o.toInt32 one = 1
  toUInt32_one : o.toUInt32 one = 1
  toInt64_one : o.toInt64 one = 1
  toUInt64_one : o.toUInt64 one = 1

def oneS : U32 := 0x3F800000
def oneD : U64 := 0x3FF0000000000000

structure OrdinaryFp (fp : HostFp) : Prop where
  s : fp.s.Ordinary oneS
  d : fp.d.Ordinary oneD

theorem OrdinaryFp.ltIrrefl {fp : HostFp} (h : OrdinaryFp fp) : LtIrrefl fp := ⟨h.s.lt_irrefl, h.d.lt_irrefl⟩

section Ordinary

variable {w : Nat} {o : FpOps w} {one : BitVec w}

theorem FpOps.Ordinary.toInt (h : o.Ordinary one) (sel : BitVec 5) : fpToInt o sel one ≠ 0 := by
  unfold fpToInt
  rw [h.toInt32_one, h.toUInt32_one, h.toInt64_one, h.toUInt64_one]
  split
  · decide
  · split
    · decide
    · split <;> decide

theorem FpOps.Ordinary.cmp (h : o.Ordinary one) {f3 : BitVec 3} (hf : f3 = 2 ∨ f3 = 0) : fpCmp o f3 one one = some 1 := by
  obtain rfl | rfl := hf
  · simp [fpCmp, h.eq_one]
  · simp [fpCmp, h.le_one]

theorem FpOps.Ordinary.less (h : o.Ordinary one) : fpCmp o 1 0 one = some 1 := by
  have hlt : o.lt 0#w one = true := h.lt_one
  simp [fpCmp, hlt]

theorem fpClass_ne_zero (o : FpOps w) (v : BitVec w) : fpClass o v ≠ 0 := by
  unfold fpClass
  split_ifs <;> decide

end Ordinary

theorem nanBox_high (v : U32) : nanBox v >>> 32 = 0xFFFFFFFF := by
  apply BitVec.eq_of_getLsbD_eq
  intro i hi
  unfold nanBox
  rw [BitVec.getLsbD_ushiftRight, BitVec.getLsbD_or, BitVec.getLsbD_setWidth]
  have hv : v.getLsbD (32 + i) = false := BitVec.getLsbD_of_ge v _ (by omega)
  rw [hv, Bool.and_false, Bool.or_false]
  clear hv
  revert i
  decide

theorem nanBox_low (v : U32) : (nanBox v).setWidth 32 = v := by
  apply BitVec.eq_of_getLsbD_eq
  intro i hi
  unfold nanBox
  have hones : (0xFFFFFFFF00000000 : U64).getLsbD i = false := by
    revert i
    decide
  rw [BitVec.getLsbD_setWidth, BitVec.getLsbD_or, BitVec.getLsbD_setWidth, hones, Bool.false_or, decide_eq_true hi]
  simp
  omega

theorem rdF_nanBox {c : Cpu} {r : BitVec 5} {v : U32} (h : c.f r = nanBox v) : rdF c r = v := by
  unfold rdF
  rw [h, nanBox_high, if_pos rfl, nanBox_low]

/-- The result goes to `x0`. -/
def WritesX0 (fp : HostFp) (f : BitVec 5 → U64) (insn : U32) : Prop :=
  ∀ c : Cpu, c.f = f → ∃ v, v ≠ 0 ∧ fpCompute c insn = some (setX 0 v c)

section Writes

variable {fp : HostFp}

theorem writesX0_arithS {f : BitVec 5 → U64} {insn : U32} (hop : opcode insn = 0x53)
    (h : ∀ c : Cpu, c.f = f → ∃ v, v ≠ 0 ∧ fpArithS c insn = some (setX 0 v c)) : WritesX0 fp f insn := by
  intro c hc
  obtain ⟨v, hv, hs⟩ := h c hc
  refine ⟨v, hv, ?_⟩
  unfold fpCompute
  rw [if_pos hop, hs]
  rfl

theorem writesX0_arithD {f : BitVec 5 → U64} {insn : U32} (hop : opcode insn = 0x53)
    (hs : ∀ c : Cpu, fpArithS c insn = none)
    (h : ∀ c : Cpu, c.f = f → ∃ v, v ≠ 0 ∧ fpArithD c insn = some (setX 0 v c)) : WritesX0 fp f insn := by
  intro c hc
  obtain ⟨v, hv, hd⟩ := h c hc
  refine ⟨v, hv, ?_⟩
  unfold fpCompute
  rw [if_pos hop, hs, hd]
  rfl

theorem writesX0_single (h : OrdinaryFp fp) {insn : U32} (hop : opcode insn = 0x53) (hrd : rd insn = 0)
    (h7 : (funct7 insn).toNat = 0x60 ∨ (funct7 insn).toNat = 0x70) : WritesX0 fp (fun _ => nanBox oneS) insn := by
  refine writesX0_arithS hop fun c hc => ?_
  have hone : ∀ r, rdF c r = oneS := fun r => rdF_nanBox (congrFun hc r)
  unfold fpArithS
  obtain h7 | h7 := h7
  · simp only [h7, hrd, hone]
    exact ⟨_, h.s.toInt (rs2 insn), rfl⟩
  · simp only [h7, hrd, hone]
    refine ⟨_, ?_, rfl⟩
    split
    · rw [congrFun hc, nanBox_low]
      decide
    · exact fpClass_ne_zero _ _

theorem writesX0_double (h : OrdinaryFp fp) {insn : U32} (hop : opcode insn = 0x53) (hrd : rd insn = 0)
    (h7 : (funct7 insn).toNat = 0x61 ∨ (funct7 insn).toNat = 0x71) : WritesX0 fp (fun _ => oneD) insn := by
  have hs : ∀ c : Cpu, fpArithS c insn = none := by
    intro c
    unfold fpArithS
    obtain h7 | h7 := h7 <;> simp only [h7]
  refine writesX0_arithD hop hs fun c hc => ?_
  have hone : ∀ r, c.f r = oneD := fun r => congrFun hc r
  unfold fpArithD
  obtain h7 | h7 := h7
  · simp only [h7, hrd, hone]
    exact ⟨_, h.d.toInt (rs2 insn), rfl⟩
  · simp only [h7, hrd, hone]
    refine ⟨_, ?_, rfl⟩
    split
    · decide
    · exact fpClass_ne_zero _ _

/-- Registers on which the comparison holds. -/
def cmpRegs (insn : U32) (zero one : U64) (r : BitVec 5) : U64 := if funct3 insn = 1 ∧ r = rs1 insn then zero else one

theorem FpOps.Ordinary.cmpHolds {w : Nat} {o : FpOps w} {one : BitVec w} (h : o.Ordinary one) {insn : U32}
    (h3 : funct3 insn = 2 ∨ funct3 insn = 0 ∨ funct3 insn = 1 ∧ rs1 insn ≠ rs2 insn) {val : BitVec 5 → BitVec w}
    (hval : ∀ r, val r = if funct3 insn = 1 ∧ r = rs1 insn then 0 else one) :
    fpCmp o (funct3 insn) (val (rs1 insn)) (val (rs2 insn)) = some 1 := by
  have hconst : funct3 insn ≠ 1 → ∀ r, val r = one := fun hne r => (hval r).trans (if_neg fun hr => hne hr.1)
  obtain h2 | h0 | ⟨h1, hrs⟩ := h3
  · have hone := hconst (by rw [h2]; decide)
    rw [hone, hone]
    exact h.cmp (.inl h2)
  · have hone := hconst (by rw [h0]; decide)
    rw [hone, hone]
    exact h.cmp (.inr h0)
  · rw [hval, hval, if_pos ⟨h1, rfl⟩, if_neg fun hr => hrs hr.2.symm, h1]
    exact h.less

theorem writesX0_cmpS (h : OrdinaryFp fp) {insn : U32} (hop : opcode insn = 0x53) (hrd : rd insn = 0)
    (h7 : (funct7 insn).toNat = 0x50) (h3 : funct3 insn = 2 ∨ funct3 insn = 0 ∨ funct3 insn = 1 ∧ rs1 insn ≠ rs2 insn) :
    WritesX0 fp (cmpRegs insn (nanBox 0) (nanBox oneS)) insn := by
  refine writesX0_arithS hop fun c hc => ⟨1, by decide, ?_⟩
  have hval : ∀ r, rdF c r = if funct3 insn = 1 ∧ r = rs1 insn then 0 else oneS := by
    intro r
    have hr := congrFun hc r
    unfold cmpRegs at hr
    split at hr
    next hz => rw [rdF_nanBox hr, if_pos hz]
    next hz => rw [rdF_nanBox hr, if_neg hz]
  unfold fpArithS
  simp only [h7, hrd]
  rw [h.s.cmpHolds h3 hval]
  rfl

theorem writesX0_cmpD (h : OrdinaryFp fp) {insn : U32} (hop : opcode insn = 0x53) (hrd : rd insn = 0)
    (h7 : (funct7 insn).toNat = 0x51) (h3 : funct3 insn = 2 ∨ funct3 insn = 0 ∨ funct3 insn = 1 ∧ rs1 insn ≠ rs2 insn) :
    WritesX0 fp (cmpRegs insn 0 oneD) insn := by
  have hs : ∀ c : Cpu, fpArithS c insn = none := by
    intro c
    unfold fpArithS
    simp only [h7]
  refine writesX0_arithD hop hs fun c hc => ⟨1, by decide, ?_⟩
  unfold fpArithD
  simp only [h7, hrd]
  rw [h.d.cmpHolds h3 (congrFun hc)]
  rfl

/-- **In some registers, every such word writes something else than 0 to `x0`.** -/
theorem FpToX0.writes (h : OrdinaryFp fp) {insn : U32} (hx : FpToX0 insn) : ∃ f, WritesX0 fp f insn := by
  obtain ⟨hop, hrd, h7 | ⟨h7, h3⟩⟩ := hx
  · simp only [List.mem_cons, List.not_mem_nil, or_false] at h7
    obtain h7 | h7 | h7 | h7 := h7
    · exact ⟨_, writesX0_single h hop hrd (.inl h7)⟩
    · exact ⟨_, writesX0_double h hop hrd (.inl h7)⟩
    · exact ⟨_, writesX0_single h hop hrd (.inr h7)⟩
    · exact ⟨_, writesX0_double h hop hrd (.inr h7)⟩
  · simp only [List.mem_cons, List.not_mem_nil, or_false] at h7
    obtain h7 | h7 := h7
    · exact ⟨_, writesX0_cmpS h hop hrd h7 h3⟩
    · exact ⟨_, writesX0_cmpD h hop hrd h7 h3⟩

end Writes

/-! ## The theorem -/

section Theorem

variable [NetDevice]

/-- `word` keeps `x0` in every machine that executes it, and as part of every block. -/
structure HardwiresX0 [HostFp] (word : U32) : Prop where
  step : ∀ c : Cpu, c.x 0 = 0 → (∀ w d, fetchInsn c.pc (checkBreak c) = .ok w d → w = word) → (rv64Step c).x 0 = 0
  block : ∀ (disabled : BitVec 128) (pc : U64) (s : JState), s.cpu.x 0 = 0 →
    (runOps none (emitWord disabled word pc).ops s).2.cpu.x 0 = 0

/-- A machine at reset about to execute `word`, with these floating-point registers. -/
def fpReset (word : U32) (f : BitVec 5 → U64) : Cpu :=
  { rv64Init (Mem.write (fun _ => 0) 0 4 (word.setWidth 64)) 0x1000 with f := f }

theorem fpReset_fetches {word : U32} (h : isCompressed word = false) (f : BitVec 5 → U64) :
    Fetches (fpReset word f) word word (fpReset word f) := by
  have hmiss : loadFast (fpReset word f) ramBase 4 .exec = none := rfl
  have hmem : ((Mem.write (fun _ => 0) 0 4 (word.setWidth 64)).read (ramBase - ramBase) 4).setWidth 32 = word := by
    rw [BitVec.sub_self]
    exact Mem.read_word _ 0 word
  exact fetches_word rfl rfl (rv64Translate_machine rfl _ .exec) hmiss (show crossesPage ramBase 4 = false by decide)
    (show inRam 0x1000 ramBase = true by decide) hmem h

theorem execInsn_fp [HostFp] {insn : U32} (hop : opcode insn = 0x53) {c c' : Cpu}
    (h : fpCompute (markFsDirty c) insn = some c') (pc nextPc : U64) : execInsn insn pc nextPc c = .ok nextPc c' := by
  have hnat : (opcode insn).toNat = 0x53 := by
    rw [hop]
    rfl
  have hfp : rv64FpExec insn c = (.ok, c') := by
    unfold rv64FpExec
    simp only [hnat, h]
  unfold execInsn
  rw [get_bind_apply]
  simp only [hnat]
  unfold execFp
  rw [hfp]

/-- **`x0` is hard-wired for exactly the words that do not convert, compare, move or classify into it.** -/
theorem hardwiresX0_iff {fp : HostFp} (h : OrdinaryFp fp) (word : U32) : HardwiresX0 word ↔ ¬ FpToX0 word := by
  constructor
  · intro hw hx
    obtain ⟨f, hf⟩ := hx.writes h
    have hfetch := fpReset_fetches (isCompressed_of_opcode (by rw [hx.1]; decide)) f
    obtain ⟨v, hv, hcompute⟩ := hf (markFsDirty (logInsn word (fpReset word f))) rfl
    have hzero := hw.step (fpReset word f) rfl fun w d hwd => (EStateM.Result.ok.inj (hwd.symm.trans hfetch.fetch)).1
    rw [hfetch.rv64Step_ok (execInsn_fp hx.1 hcompute _ _)] at hzero
    exact hv hzero
  · intro hx
    exact ⟨fun c h0 hc => rv64Step_keepsX0 h.ltIrrefl hx hc h0, fun disabled pc s h0 => emitWord_keepsX0 h.ltIrrefl hx disabled pc s h0⟩

end Theorem

/-! ## Two moves -/

section Moves

local instance zeroNet : NetDevice := NetDevice.silent

/-- Operations that are right at 0 and 1. -/
def FpOps.atOne {w : Nat} (one : BitVec w) : FpOps w :=
  { FpOps.zero w with
    lt := fun a b => decide (a < b)
    le := fun a b => decide (a ≤ b)
    eq := fun a b => decide (a = b)
    toInt32 := fun v => if v = one then 1 else 0
    toUInt32 := fun v => if v = one then 1 else 0
    toInt64 := fun v => if v = one then 1 else 0
    toUInt64 := fun v => if v = one then 1 else 0 }

local instance zeroFp : HostFp := { HostFp.zero with s := .atOne oneS, d := .atOne oneD }

theorem atOne_ordinary {w : Nat} {one : BitVec w} (h : 0#w < one) : (FpOps.atOne one).Ordinary one where
  lt_irrefl a := by simp [FpOps.atOne]
  lt_one := by simp [FpOps.atOne, h]
  le_one := by simp [FpOps.atOne]
  eq_one := by simp [FpOps.atOne]
  toInt32_one := by simp [FpOps.atOne]
  toUInt32_one := by simp [FpOps.atOne]
  toInt64_one := by simp [FpOps.atOne]
  toUInt64_one := by simp [FpOps.atOne]

/-- FMV.X.D x10, f1. -/
theorem hardwiresX0_fmvX10 : HardwiresX0 0xE2008553 :=
  (hardwiresX0_iff ⟨atOne_ordinary (by decide), atOne_ordinary (by decide)⟩ 0xE2008553).2 (by decide)

/-- FMV.X.D x0, f1 with 7 in f1 leaves 7 in `x0`. -/
theorem not_hardwiresX0_fmvX0 : ¬ HardwiresX0 0xE2008053 := by
  intro hw
  have hfetch := (@fpReset_fetches _ 0xE2008053 rfl fun _ => 7).fetch
  have hzero := hw.step _ rfl fun w d hwd => (EStateM.Result.ok.inj (hwd.symm.trans hfetch)).1
  revert hzero
  decide +kernel

end Moves

end PgLinux
