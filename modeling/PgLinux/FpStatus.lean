import PgLinux.CsrProtection
/-!
# FpStatus — what the status registers say of the FPU

Every floating-point instruction starts by setting FS to Dirty in `mstatus`.  SD, which sums FS up, is a stored bit like
any other: it is what software wrote last, and neither the FPU nor a write of the FPU's CSRs touches it.
-/
namespace PgLinux

open Prog

/-! ## The status registers -/

/-- The FS field, Off, Initial, Clean or Dirty. -/
def statusFs (v : U64) : U64 := v >>> 13 &&& 3

def statusSd (v : U64) : Bool := v.getLsbD 63

def statusCsrs : List (BitVec 12) := [csrMstatus, csrSstatus]

/-- Reads of both status registers show FS = Dirty. -/
def ReadsDirty (c : Cpu) : Prop := ∀ csr ∈ statusCsrs, ∃ v, csrRead c csr = some v ∧ statusFs v = 3

/-- Reads of both status registers show SD exactly when they show FS = Dirty. -/
def SdExact (c : Cpu) : Prop := ∀ csr ∈ statusCsrs, ∃ v, csrRead c csr = some v ∧ (statusSd v = true ↔ statusFs v = 3)

/-- After a change of the FPU registers or `fcsr`, the status registers show it. -/
def Shown (c c' : Cpu) : Prop := c'.f ≠ c.f ∨ c'.fcsr ≠ c.fcsr → ReadsDirty c'

/-- FS and SD. -/
def statusBits : List Nat := [13, 14, 63]

def SameStatus (v v' : U64) : Prop := ∀ i ∈ statusBits, v'.getLsbD i = v.getLsbD i

theorem statusFs_dirty (v : U64) : statusFs v = 3 ↔ v.getLsbD 13 = true ∧ v.getLsbD 14 = true := by
  unfold statusFs
  constructor
  · intro h
    have h0 := congrArg (BitVec.getLsbD · 0) h
    have h1 := congrArg (BitVec.getLsbD · 1) h
    simpa using And.intro h0 h1
  · rintro ⟨h0, h1⟩
    ext i hi
    match i with
    | 0 => simpa using h0
    | 1 => simpa using h1
    | i + 2 =>
      have hthree : (3#64).getLsbD (i + 2) = false := by simp [BitVec.getLsbD, Nat.testBit_add_one]
      simp [← BitVec.getLsbD_eq_getElem, hthree]

theorem SameStatus.fs {v v' : U64} (h : SameStatus v v') : statusFs v' = 3 ↔ statusFs v = 3 := by
  rw [statusFs_dirty, statusFs_dirty, h 13 (by decide), h 14 (by decide)]

theorem SameStatus.sd {v v' : U64} (h : SameStatus v v') : statusSd v' = statusSd v := h 63 (by decide)

theorem sameStatus_sstatus (v : U64) : SameStatus v (v &&& sstatusMask) := by
  simp [SameStatus, statusBits, sstatusMask, mstatusSie, mstatusSpie, mstatusSpp, mstatusFs, mstatusSum, mstatusMxr]

theorem csrRead_mstatus (c : Cpu) : csrRead c csrMstatus = some c.csr.mstatus := rfl
theorem csrRead_sstatus (c : Cpu) : csrRead c csrSstatus = some (c.csr.mstatus &&& sstatusMask) := rfl

theorem readsDirty_iff (c : Cpu) : ReadsDirty c ↔ statusFs c.csr.mstatus = 3 := by
  have hs : statusFs (c.csr.mstatus &&& sstatusMask) = 3#64 ↔ _ := (sameStatus_sstatus c.csr.mstatus).fs
  simp [ReadsDirty, statusCsrs, csrRead_mstatus, csrRead_sstatus, hs]

theorem sdExact_iff (c : Cpu) : SdExact c ↔ (statusSd c.csr.mstatus = true ↔ statusFs c.csr.mstatus = 3) := by
  have hs := sameStatus_sstatus c.csr.mstatus
  have hfs : statusFs (c.csr.mstatus &&& sstatusMask) = 3#64 ↔ _ := hs.fs
  simp [SdExact, statusCsrs, csrRead_mstatus, csrRead_sstatus, hs.sd, hfs]

/-! ## Moves that keep the bookkeeping -/

/-- The FPU registers and the bits that speak of them, as they were. -/
structure FpSame (c c' : Cpu) : Prop where
  priv : c'.priv.toNat < 4
  f : c'.f = c.f
  fcsr : c'.fcsr = c.fcsr
  status : SameStatus c.csr.mstatus c'.csr.mstatus

/-- A trap puts the level into `mstatus`, so the level has to fit into MPP. -/
def FpFrame (c c' : Cpu) : Prop := c.priv.toNat < 4 → FpSame c c'

instance : IsPreorder Cpu FpFrame where
  refl _ hp := ⟨hp, rfl, rfl, fun _ _ => rfl⟩
  trans := by
    intro c d e h h' hp
    have hd := h hp
    have he := h' hd.priv
    exact ⟨he.priv, he.f.trans hd.f, he.fcsr.trans hd.fcsr, fun i hi => (he.status i hi).trans (hd.status i hi)⟩

theorem fpFrame_of {c c' : Cpu} (hp : c'.priv = c.priv) (hf : c'.f = c.f) (hfcsr : c'.fcsr = c.fcsr)
    (hm : SameStatus c.csr.mstatus c'.csr.mstatus) : FpFrame c c' := fun h => ⟨hp ▸ h, hf, hfcsr, hm⟩

theorem fpFrame_access {α : Type} {m : Access α} (h : Leads AccessFrame m) : Leads FpFrame m :=
  h.mono fun c c' hframe => by
    obtain ⟨t, b, d, rfl⟩ := hframe
    exact fpFrame_of rfl rfl rfl fun _ _ => rfl

theorem priv_getElem {p : U8} (h : p.toNat < 4) {i : Nat} (hi : 2 ≤ i) (hlt : i < 8) : p[i] = false := by
  rw [← BitVec.getLsbD_eq_getElem, BitVec.getLsbD]
  exact Nat.testBit_lt_two_pow (Nat.lt_of_lt_of_le h (Nat.pow_le_pow_right (Nat.succ_pos 1) hi))

theorem trap_fpFrame (c : Cpu) (cause tval : U64) : FpFrame c (trap c cause tval) := by
  intro hp
  have h2 : c.priv[2] = false := priv_getElem hp (by decide) _
  have h3 : c.priv[3] = false := priv_getElem hp (by decide) _
  have h5 : c.priv[5] = false := priv_getElem hp (by decide) _
  have h6 : c.priv[6] = false := priv_getElem hp (by decide) _
  obtain ⟨r, p, pc, d, hframe⟩ := trap_frame c cause tval
  refine ⟨(trap_privWf c cause tval).lt, by rw [hframe], by rw [hframe], ?_⟩
  unfold trap Cpu.logTrap
  dsimp only
  split <;> split <;>
    simp [SameStatus, statusBits, bit, mstatusSpie, mstatusSie, mstatusSpp, mstatusMpie, mstatusMie, mstatusMpp, h2, h3, h5,
      h6]

theorem mret_fpFrame (c : Cpu) : FpFrame c (mret c) := by
  intro _
  refine ⟨?_, rfl, rfl, ?_⟩
  · show ((c.csr.mstatus >>> 11 &&& 3).setWidth 8).toNat < 4
    rw [BitVec.toNat_setWidth, BitVec.toNat_and]
    exact Nat.lt_of_le_of_lt (Nat.mod_le _ _) (Nat.lt_of_le_of_lt Nat.and_le_right (by decide))
  · simp [mret, SameStatus, statusBits, bit, mstatusMie, mstatusMpie, mstatusMpp]

theorem sret_fpFrame (c : Cpu) : FpFrame c (sret c) := by
  intro _
  have hpriv := (sret_privWf c).lt
  have hback : ∃ d, sret c = { c with
      csr := { c.csr with mstatus := (((c.csr.mstatus &&& ~~~mstatusSie) ||| bit c.csr.mstatus 5 <<< 1) ||| mstatusSpie) &&&
        ~~~mstatusSpp }
      priv := (bit c.csr.mstatus 8).setWidth 8
      dbg := d } := by
    unfold sret backfill
    dsimp only
    split <;> exact ⟨_, rfl⟩
  obtain ⟨d, h⟩ := hback
  rw [h] at hpriv ⊢
  exact ⟨hpriv, rfl, rfl, by simp [SameStatus, statusBits, bit, mstatusSie, mstatusSpie, mstatusSpp]⟩

theorem checkBreak_fpFrame (c : Cpu) : FpFrame c (checkBreak c) := by
  obtain ⟨t, b, d, h⟩ := checkBreak_frame c
  rw [h]
  exact fpFrame_of rfl rfl rfl fun _ _ => rfl

theorem logInsn_fpFrame (word : U32) (c : Cpu) : FpFrame c (logInsn word c) := fpFrame_of rfl rfl rfl fun _ _ => rfl

theorem retire_fpFrame (nextPc : U64) (c : Cpu) : FpFrame c (retire nextPc c) := fpFrame_of rfl rfl rfl fun _ _ => rfl

theorem fpFrame_rules [NetDevice] : ExecRules FpFrame where
  wr _ _ _ := fpFrame_of rfl rfl rfl fun _ _ => rfl
  reserve _ _ := fpFrame_of rfl rfl rfl fun _ _ => rfl
  load va size access := fpFrame_access (rv64CpuLoad_frame va size access)
  store va size val := fpFrame_access (cpuStore_frame va size val)
  trap := trap_fpFrame
  jitFlush _ := fpFrame_of rfl rfl rfl fun _ _ => rfl

/-! ## Floating-point instructions -/

/-- What a floating-point instruction may do once FS is Dirty. -/
structure FpDirtied (c c' : Cpu) : Prop where
  priv : c'.priv.toNat < 4
  fcsr : c'.fcsr = c.fcsr
  sd : statusSd c'.csr.mstatus = statusSd c.csr.mstatus
  fs : statusFs c.csr.mstatus = 3 → statusFs c'.csr.mstatus = 3

def FpMove (c c' : Cpu) : Prop := c.priv.toNat < 4 → FpDirtied c c'

instance : IsPreorder Cpu FpMove where
  refl _ hp := ⟨hp, rfl, rfl, id⟩
  trans := by
    intro c d e h h' hp
    have hd := h hp
    have he := h' hd.priv
    exact ⟨he.priv, he.fcsr.trans hd.fcsr, he.sd.trans hd.sd, he.fs ∘ hd.fs⟩

theorem FpFrame.move {c c' : Cpu} (h : FpFrame c c') : FpMove c c' := fun hp =>
  have hs := h hp
  ⟨hs.priv, hs.fcsr, hs.status.sd, hs.status.fs.2⟩

theorem statusFs_mark (v : U64) : statusFs (v ||| mstatusFs) = 3 := by
  rw [statusFs_dirty]
  simp [mstatusFs]

theorem markFsDirty_move (c : Cpu) : FpMove c (markFsDirty c) := by
  intro hp
  refine ⟨hp, rfl, ?_, fun _ => statusFs_mark c.csr.mstatus⟩
  simp [markFsDirty, statusSd, mstatusFs]

section Fp

variable [NetDevice]

theorem fpMove_rules : ExecRules FpMove := fpFrame_rules.mono fun _ _ => FpFrame.move

variable [HostFp]

theorem fpMove_rv64FpExec (insn : U32) (c : Cpu) : FpMove c (rv64FpExec insn c).2 := by
  refine fpMove_rules.rv64FpExec markFsDirty_move (fun c f hp => ⟨hp, rfl, rfl, id⟩) fun d hd => ?_
  obtain ⟨x, f, rfl⟩ := fpCompute_regs _ insn d hd
  exact fun hp => ⟨hp, rfl, rfl, id⟩

theorem rv64FpExec_mark (insn : U32) (c : Cpu) : rv64FpExec insn (markFsDirty c) = rv64FpExec insn c := by
  unfold rv64FpExec
  rw [markFsDirty_idem]

/-- **The FPU leaves FS at Dirty, and SD as it was.** -/
theorem rv64FpExec_dirty (insn : U32) {c : Cpu} (hp : c.priv.toNat < 4) :
    FpDirtied c (rv64FpExec insn c).2 ∧ statusFs (rv64FpExec insn c).2.csr.mstatus = 3 := by
  refine ⟨fpMove_rv64FpExec insn c hp, ?_⟩
  rw [← rv64FpExec_mark]
  exact (fpMove_rv64FpExec insn (markFsDirty c) hp).fs (statusFs_mark c.csr.mstatus)

theorem execInsn_fpOpcode {insn : U32} (h : IsFp insn) (pc nextPc : U64) (c : Cpu) :
    execInsn insn pc nextPc c = execFp insn nextPc c := by
  unfold execInsn
  rw [get_bind_apply]
  simp only [IsFp, List.mem_cons, List.not_mem_nil, or_false] at h
  rcases h with h | h | h | h | h | h | h <;> simp only [h]

theorem execFp_dirty (insn : U32) (nextPc : U64) {c : Cpu} (hp : c.priv.toNat < 4) :
    FpDirtied c (final (execFp insn nextPc c)) ∧ statusFs (final (execFp insn nextPc c)).csr.mstatus = 3 := by
  obtain ⟨hmove, hfs⟩ := rv64FpExec_dirty insn hp
  unfold execFp
  cases hr : rv64FpExec insn c with
  | mk r d =>
    rw [hr] at hmove hfs
    cases r with
    | ok => exact ⟨hmove, hfs⟩
    | illegal =>
      have htrap := fpFrame_rules.toLoad.illegal (α := U64) insn d hmove.priv
      exact ⟨⟨htrap.priv, htrap.fcsr.trans hmove.fcsr, htrap.status.sd.trans hmove.sd, fun _ => htrap.status.fs.2 hfs⟩,
        htrap.status.fs.2 hfs⟩
    | faulted => exact ⟨hmove, hfs⟩

end Fp

/-! ## CSR instructions -/

/-- A SYSTEM instruction that goes to the CSRs. -/
def AccessesCsr (insn : U32) : Prop := opcode insn = 0x73 ∧ funct3 insn ≠ 0

def csrSrc (c : Cpu) (insn : U32) : U64 := if (funct3 insn).getLsbD 2 then (rs1 insn).setWidth 64 else c.x (rs1 insn)

/-- What a CSR instruction makes of the old value. -/
def csrNew (insn : U32) (old src : U64) : U64 :=
  if funct3 insn &&& 3 = 1 then src
  else if funct3 insn &&& 3 = 2 then old ||| src
  else if funct3 insn &&& 3 = 3 then old &&& ~~~src
  else old

/-- Whether it stores it. -/
def CsrStores (insn : U32) (src : U64) : Prop := funct3 insn &&& 3 = 1 ∨ src ≠ 0

instance (insn : U32) (src : U64) : Decidable (CsrStores insn src) := inferInstanceAs (Decidable (_ ∨ _))

/-- `fflags`, `frm` and `fcsr`, with the bits of a write that count. -/
def fcsrMask (csr : BitVec 12) : Option U64 :=
  match csr.toNat with
  | 0x001 => some 0x1F
  | 0x002 => some 0x7
  | 0x003 => some 0xFF
  | _ => none

/-- A write of `new` over `old` that the bookkeeping does not follow: a status register gets an SD that does not sum up its
FS, or `fcsr` changes while FS is not Dirty. -/
def WriteLoses (c : Cpu) (csr : BitVec 12) (old new : U64) : Prop :=
  csr ∈ statusCsrs ∧ ¬ (statusSd new = true ↔ statusFs new = 3) ∨
    statusFs c.csr.mstatus ≠ 3 ∧ ∃ mask, fcsrMask csr = some mask ∧ new &&& mask ≠ old

theorem execCsr_stored {c : Cpu} {insn : U32} {old : U64} (h : csrRead c (csrAddr insn) = some old) (nextPc : U64) :
    execCsr insn nextPc c = .ok nextPc (Cpu.wr (if CsrStores insn (csrSrc c insn)
      then csrWriteChecked (csrAddr insn) (csrNew insn old (csrSrc c insn)) c else c) (rd insn) old) := by
  unfold execCsr
  rw [get_bind_apply]
  dsimp only
  rw [show csrRead c (insn.extractLsb' 20 12) = some old from h]
  dsimp only
  by_cases hstores : CsrStores insn (csrSrc c insn)
  · rw [if_pos hstores, if_pos (by exact hstores)]
    rfl
  · rw [if_neg hstores, if_neg (by exact hstores)]
    rfl

section Merge

variable {w : Nat}

/-- A write of the bits of a mask changes nothing when these bits are the old ones. -/
theorem merge_eq_iff (a b m : BitVec w) : (a &&& ~~~m) ||| (b &&& m) = a ↔ b &&& m = a &&& m := by
  constructor
  · intro h
    ext i hi
    have hbit := congrArg (BitVec.getLsbD · i) h
    simp only [BitVec.getLsbD_or, BitVec.getLsbD_and, BitVec.getLsbD_not] at hbit
    simp only [← BitVec.getLsbD_eq_getElem, BitVec.getLsbD_and]
    revert hbit
    cases a.getLsbD i <;> cases b.getLsbD i <;> cases m.getLsbD i <;> simp [hi]
  · intro h
    rw [h]
    ext i hi
    simp only [← BitVec.getLsbD_eq_getElem, BitVec.getLsbD_or, BitVec.getLsbD_and, BitVec.getLsbD_not]
    cases a.getLsbD i <;> cases m.getLsbD i <;> simp [hi]

theorem merge_and {a b m k : BitVec w} (ha : a &&& k = a) (hm : m &&& k = m) :
    ((a &&& ~~~m) ||| (b &&& m)) &&& k = (a &&& ~~~m) ||| (b &&& m) := by
  ext i hi
  have hai := congrArg (BitVec.getLsbD · i) ha
  have hmi := congrArg (BitVec.getLsbD · i) hm
  simp only [BitVec.getLsbD_and] at hai hmi
  simp only [← BitVec.getLsbD_eq_getElem, BitVec.getLsbD_or, BitVec.getLsbD_and, BitVec.getLsbD_not]
  revert hai hmi
  cases a.getLsbD i <;> cases b.getLsbD i <;> cases m.getLsbD i <;> simp [hi]

/-- A field is written in its place. -/
theorem and_shiftLeft_eq_iff {n : Nat} {a b m : BitVec w} (hm : ∀ v : BitVec w, ((v &&& m) <<< n) >>> n = v &&& m) :
    b <<< n &&& m <<< n = a &&& m <<< n ↔ b &&& m = (a >>> n) &&& m := by
  have hplace : a &&& m <<< n = ((a >>> n) &&& m) <<< n := by
    rw [BitVec.shiftLeft_and_distrib]
    ext i hi
    by_cases hlt : i < n
    · simp [hlt]
    · have hsub : n + (i - n) = i := by omega
      simp [hlt, hi, hsub, ← BitVec.getLsbD_eq_getElem]
  rw [hplace, ← BitVec.shiftLeft_and_distrib]
  constructor
  · intro h
    rw [← hm b, h, hm]
  · intro h
    rw [h]

theorem setWidth_and_eq_iff (v : U64) (a m : U32) :
    v &&& m.setWidth 64 = a.setWidth 64 &&& m.setWidth 64 ↔ v.setWidth 32 &&& m = a &&& m := by
  constructor
  · intro h
    have hlow := congrArg (BitVec.setWidth 32) h
    simpa using hlow
  · intro h
    have hext := congrArg (BitVec.setWidth 64) h
    rw [BitVec.setWidth_and, BitVec.setWidth_and] at hext
    rw [← hext]
    ext i hi
    by_cases hlt : i < 32
    · simp [← BitVec.getLsbD_eq_getElem, hlt, hi]
    · have hm := BitVec.getLsbD_of_ge m i (Nat.not_lt.1 hlt)
      simp [← BitVec.getLsbD_eq_getElem, hm]

end Merge

/-- `fcsr` has eight bits. -/
def FcsrOk (c : Cpu) : Prop := c.fcsr &&& 0xFF = c.fcsr

/-- **A write changes `fcsr` exactly when the bits that count are not those that are read.** -/
theorem csrWrite_fcsr_eq_iff {c : Cpu} (hc : FcsrOk c) {csr : BitVec 12} {mask old : U64} (hmask : fcsrMask csr = some mask)
    (hold : csrRead c csr = some old) (new : U64) : (csrWrite c csr new).fcsr = c.fcsr ↔ new &&& mask = old := by
  have hcases : csr = 0x001 ∧ mask = 0x1F ∨ csr = 0x002 ∧ mask = 0x7 ∨ csr = 0x003 ∧ mask = 0xFF := by
    unfold fcsrMask at hmask
    split at hmask
    next h => exact .inl ⟨BitVec.eq_of_toNat_eq h, (Option.some.inj hmask).symm⟩
    next h => exact .inr (.inl ⟨BitVec.eq_of_toNat_eq h, (Option.some.inj hmask).symm⟩)
    next h => exact .inr (.inr ⟨BitVec.eq_of_toNat_eq h, (Option.some.inj hmask).symm⟩)
    next => cases hmask
  rcases hcases with ⟨rfl, rfl⟩ | ⟨rfl, rfl⟩ | ⟨rfl, rfl⟩
  · obtain rfl := Option.some.inj hold
    exact (merge_eq_iff c.fcsr (new.setWidth 32) 0x1F).trans (setWidth_and_eq_iff new c.fcsr 0x1F).symm
  · obtain rfl := Option.some.inj hold
    refine Iff.trans ?_ (setWidth_and_eq_iff new (c.fcsr >>> 5) 0x7).symm
    have hfield : ∀ v : U32, ((v &&& 0x7) <<< 5) >>> 5 = v &&& 0x7 := by
      intro v
      have hlt : (v &&& 0x7).toNat < 8 := by
        rw [BitVec.toNat_and]
        exact Nat.lt_of_le_of_lt Nat.and_le_right (by decide)
      apply BitVec.eq_of_toNat_eq
      rw [BitVec.toNat_ushiftRight, BitVec.toNat_shiftLeft, Nat.shiftLeft_eq, Nat.shiftRight_eq_div_pow]
      omega
    refine Iff.trans ?_ (and_shiftLeft_eq_iff hfield)
    refine Iff.trans ?_ (merge_eq_iff c.fcsr (new.setWidth 32 <<< 5) ((0x7 : U32) <<< 5))
    rw [← BitVec.shiftLeft_and_distrib]
    rfl
  · obtain rfl := Option.some.inj hold
    refine Iff.trans ?_ (setWidth_and_eq_iff new c.fcsr 0xFF).symm
    rw [show c.fcsr &&& 0xFF = c.fcsr from hc]
    rfl

theorem csrWrite_fcsrOk {c : Cpu} (hc : FcsrOk c) (csr : BitVec 12) (val : U64) : FcsrOk (csrWrite c csr val) := by
  unfold FcsrOk csrWrite
  split
  · exact hc
  split
  · exact merge_and (b := val.setWidth 32) (m := 0x1F) hc rfl
  split
  · have hm : ((0x7 : U32) <<< 5) &&& 0xFF = 0x7 <<< 5 := by decide
    have hand := merge_and (b := val.setWidth 32 <<< 5) hc hm
    rw [← BitVec.shiftLeft_and_distrib] at hand
    exact hand
  split
  · simp [BitVec.and_assoc]
  · exact hc

theorem csrUpdate_mstatus {csr : BitVec 12} (h : csr ∉ statusCsrs) (r : Csr) (val : U64) :
    (csrUpdate r csr val).mstatus = r.mstatus := by
  simp only [statusCsrs, List.mem_cons, List.not_mem_nil, or_false, not_or] at h
  unfold csrUpdate
  split
  case h_1 hn => exact absurd (BitVec.eq_of_toNat_eq hn) h.1
  all_goals first
    | rfl
    | exact absurd (BitVec.eq_of_toNat_eq (by assumption)) h.2

theorem csrWrite_mstatus {csr : BitVec 12} (h : csr ∉ statusCsrs) (c : Cpu) (val : U64) :
    (csrWrite c csr val).csr.mstatus = c.csr.mstatus := by
  unfold csrWrite
  split
  · rfl
  split
  · rfl
  split
  · rfl
  split
  · rfl
  · exact csrUpdate_mstatus h c.csr val

theorem csrWrite_status {csr : BitVec 12} (h : csr ∈ statusCsrs) (c : Cpu) (val : U64) :
    SameStatus val (csrWrite c csr val).csr.mstatus := by
  simp only [statusCsrs, List.mem_cons, List.not_mem_nil, or_false] at h
  rcases h with rfl | rfl
  · exact fun _ _ => rfl
  · show SameStatus val (maskedWrite c.csr.mstatus sstatusMask val)
    simp [SameStatus, statusBits, maskedWrite, sstatusMask, mstatusSie, mstatusSpie, mstatusSpp, mstatusFs, mstatusSum,
      mstatusMxr]

theorem csrWrite_fcsr {csr : BitVec 12} (h : fcsrMask csr = none) (c : Cpu) (val : U64) :
    (csrWrite c csr val).fcsr = c.fcsr := by
  unfold csrWrite
  split
  · rfl
  iterate 3
    split
    next hcsr =>
      rw [hcsr] at h
      cases h
  rfl

theorem csrWriteChecked_fields (csr : BitVec 12) (val : U64) (c : Cpu) :
    (csrWriteChecked csr val c).csr = (csrWrite c csr val).csr ∧ (csrWriteChecked csr val c).fcsr = (csrWrite c csr val).fcsr ∧
      (csrWriteChecked csr val c).f = c.f ∧ (csrWriteChecked csr val c).priv = c.priv := by
  obtain ⟨r, g, t, j, h⟩ := csrWrite_frame c csr val
  unfold csrWriteChecked
  dsimp only
  rw [h]
  split <;> exact ⟨rfl, rfl, rfl, rfl⟩

/-- **A CSR write keeps the bookkeeping exactly when it is not one that the bookkeeping does not follow.** -/
theorem csrWriteChecked_shows {c : Cpu} (hc : FcsrOk c) (hsd : SdExact c) {csr : BitVec 12} {old : U64}
    (hold : csrRead c csr = some old) (new : U64) :
    (SdExact (csrWriteChecked csr new c) ∧ Shown c (csrWriteChecked csr new c)) ↔ ¬ WriteLoses c csr old new := by
  obtain ⟨hcsr, hfcsr, hf, -⟩ := csrWriteChecked_fields csr new c
  rw [sdExact_iff] at hsd ⊢
  unfold Shown WriteLoses
  rw [readsDirty_iff, hcsr, hfcsr, hf]
  by_cases hstatus : csr ∈ statusCsrs
  · have hs := csrWrite_status hstatus c new
    have hmask : fcsrMask csr = none := by
      revert hstatus
      simp only [statusCsrs, List.mem_cons, List.not_mem_nil, or_false]
      rintro (rfl | rfl) <;> rfl
    simpa [hs.sd, hstatus, hmask, csrWrite_fcsr hmask] using hs.fs
  · rw [csrWrite_mstatus hstatus]
    cases hmask : fcsrMask csr with
    | none => simp [hstatus, hsd, csrWrite_fcsr hmask]
    | some mask =>
      have hwrite := csrWrite_fcsr_eq_iff hc hmask hold new
      by_cases hnew : new &&& mask = old <;> simp [hstatus, hsd, hwrite, hnew]

end PgLinux
