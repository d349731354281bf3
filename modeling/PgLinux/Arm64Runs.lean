import PgLinux.Arm64Memory
import PgLinux.Arm64Words
import PgLinux.Lib.A64
/-!
# Arm64Runs — what the emitted words do

Each word is decoded once; a run over words without jumps leads to one state.
-/
namespace PgLinux
namespace Arm64

open A64 (Insn Keeps Reg State Straight decode run)

/-! ## Words with a field that varies -/

/-- The words of `op`, but for their constants. -/
def MovFields (op : U32) (code : Nat) : Prop :=
  ∀ (s : Fin 4) (r : Reg), let w := op ||| BitVec.ofNat 32 s <<< 21 ||| r.setWidth 32
    (w.extractLsb' 22 10).toNat = code + s.val / 2 ∧ A64.hw w = BitVec.ofNat 2 s ∧ A64.imm16 w = 0 ∧ A64.rd w = r

theorem movFields_word {op : U32} {code : Nat} (h : MovFields op code) (s : Fin 4) (c : U16) (r : Reg) {w : U32}
    (hw : w = op ||| BitVec.ofNat 32 s <<< 21 ||| c.setWidth 32 <<< 5 ||| r.setWidth 32) :
    (w.extractLsb' 22 10).toNat = code + s.val / 2 ∧ A64.hw w = BitVec.ofNat 2 s ∧ A64.imm16 w = c ∧ A64.rd w = r := by
  obtain ⟨hop, hhw, himm, hrd⟩ := h s r
  subst hw
  have hother := fun q m => A64.extract_other (op ||| BitVec.ofNat 32 s <<< 21) (r.setWidth 32) c (p := 5) (q := q) (m := m)
  refine ⟨?_, ?_, A64.extract_field _ _ c (by decide) himm, ?_⟩
  · rw [hother 22 10 (.inr (by decide)), hop]
  · exact (hother 21 2 (.inr (by decide))).trans hhw
  · exact (hother 0 5 (.inl (by decide))).trans hrd

theorem movz_fields : MovFields 0xD2800000 0x34A := by unfold MovFields; decide

theorem movk_fields : MovFields 0xF2800000 0x3CA := by unfold MovFields; decide

theorem decode_movz (s : Fin 4) (c : U16) (r : Reg) :
    decode (movz s c (r.setWidth 32)) = some (.movz (BitVec.ofNat 2 s) c r) := by
  obtain ⟨hop, hhw, himm, hrd⟩ := movFields_word movz_fields s c r (w := movz s c (r.setWidth 32)) rfl
  unfold decode
  rw [hop, hhw, himm, hrd]
  have hs : s.val / 2 = 0 ∨ s.val / 2 = 1 := by omega
  rcases hs with hs | hs
  · rw [hs]
    rfl
  · rw [hs]
    rfl

theorem decode_movk (s : Fin 4) (c : U16) (r : Reg) :
    decode (movk s c (r.setWidth 32)) = some (.movk (BitVec.ofNat 2 s) c r) := by
  obtain ⟨hop, hhw, himm, hrd⟩ := movFields_word movk_fields s c r (w := movk s c (r.setWidth 32)) rfl
  unfold decode
  rw [hop, hhw, himm, hrd]
  have hs : s.val / 2 = 0 ∨ s.val / 2 = 1 := by omega
  rcases hs with hs | hs
  · rw [hs]
    rfl
  · rw [hs]
    rfl

/-! ## Constants -/

theorem chunk_eq_part (imm : U64) (s : Nat) : chunk imm s = A64.part imm s := rfl

/-- The loop from part `s` on: the register holds the parts before, or no part before is to be written. -/
theorem straight_movLoop (r : Reg) (hr : r ≠ 31) (imm : U64) (st : State) : ∀ (n s : Nat) (first : Bool), s + n = 4 →
    (first = true → A64.lowParts imm s = 0 ∧ n ≠ 0) →
    Straight (movLoop (r.setWidth 32) imm (List.range' s n) first) (if first then st else st.set r (A64.lowParts imm s))
      (st.set r imm)
  | 0, s, first, hs, hfirst => by
    have hf : first = false := by
      cases first with
      | false => rfl
      | true => exact absurd rfl (hfirst rfl).2
    obtain rfl : s = 4 := by omega
    subst hf
    rw [A64.lowParts_all]
    exact A64.straight_nil _
  | n + 1, s, first, hs, hfirst => by
    have hlt : s < 4 := by omega
    have hval : (BitVec.ofNat 2 s).toNat = s := by
      rw [BitVec.toNat_ofNat]
      exact Nat.mod_eq_of_lt hlt
    rw [List.range'_succ]
    unfold movLoop
    by_cases hc : chunk imm s ≠ 0 ∨ (s = 3 ∧ first = true)
    · rw [if_pos hc]
      have htail := straight_movLoop r hr imm st n (s + 1) false (by omega) (fun e => absurd e (by decide))
      cases first with
      | true =>
        have hpart : (A64.part imm s).setWidth 64 <<< (16 * (BitVec.ofNat 2 s).toNat) = A64.lowParts imm (s + 1) := by
          rw [A64.lowParts_succ, (hfirst rfl).1, hval]
          exact BitVec.zero_or.symm
        refine Straight.cons (decode_movz ⟨s, hlt⟩ _ r) rfl ?_
        rw [chunk_eq_part, hpart]
        exact htail
      | false =>
        have hpart : A64.insert16 ((st.set r (A64.lowParts imm s)).get r) (BitVec.ofNat 2 s) (A64.part imm s) =
            A64.lowParts imm (s + 1) := by
          have h := A64.insert16_lowParts imm (BitVec.ofNat 2 s)
          rw [hval] at h
          rw [A64.set_get hr, h]
        refine Straight.cons (decode_movk ⟨s, hlt⟩ _ r) rfl ?_
        show Straight _ ((st.set r _).set r (A64.insert16 ((st.set r _).get r) (BitVec.ofNat 2 s) (A64.part imm s))) _
        rw [hpart, A64.set_set hr]
        exact htail
    · obtain ⟨h0, h3⟩ := not_or.1 hc
      have hlow : A64.lowParts imm (s + 1) = A64.lowParts imm s := by
        rw [A64.lowParts_succ, ← chunk_eq_part, not_not.1 h0]
        simp
      rw [if_neg hc, ← hlow]
      refine straight_movLoop r hr imm st n (s + 1) first (by omega) fun e => ⟨hlow.trans (hfirst e).1, fun hn => h3 ⟨?_, e⟩⟩
      omega

/-- **The words of a constant leave it in their register.** -/
theorem straight_movImm (r : Reg) (hr : r ≠ 31) (imm : U64) (st : State) :
    Straight (movImm (r.setWidth 32) imm) st (st.set r imm) :=
  straight_movLoop r hr imm st 4 0 true rfl fun _ => ⟨A64.lowParts_zero imm, by decide⟩

/-! ## Addresses -/

/-- The fields of the word of `op` with no constant. -/
def ImmFields (op : U32) (code : Nat) (n t : Reg) : Prop :=
  let w := op ||| (n.setWidth 32 <<< 5 ||| t.setWidth 32)
  (w.extractLsb' 22 10).toNat = code ∧ A64.rn w = n ∧ A64.rd w = t ∧ A64.imm12 w = 0

theorem immFields_word {op : U32} {code : Nat} {n t : Reg} (h : ImmFields op code n t) (imm : BitVec 12) {w : U32}
    (hw : w = op ||| imm.setWidth 32 <<< 10 ||| (n.setWidth 32 <<< 5 ||| t.setWidth 32)) :
    (w.extractLsb' 22 10).toNat = code ∧ A64.rn w = n ∧ A64.rd w = t ∧ A64.imm12 w = imm := by
  obtain ⟨hop, hrn, hrd, himm⟩ := h
  obtain ⟨hop', hrn', hrd', himm'⟩ := A64.imm12_fields hw himm
  exact ⟨by rw [hop', hop], hrn'.trans hrn, hrd'.trans hrd, himm'⟩

theorem decode_addImm (imm : BitVec 12) {n t : Reg} (h : ImmFields 0x91000000 0x244 n t) :
    decode (addImm12Word (t.setWidth 32) (n.setWidth 32) (imm.setWidth 32)) = some (.addImm imm n t) := by
  obtain ⟨hop, hrn, hrd, himm⟩ := immFields_word h imm (w := addImm12Word (t.setWidth 32) (n.setWidth 32) (imm.setWidth 32))
    (BitVec.or_assoc ..)
  unfold decode
  rw [hop, hrn, hrd, himm]
  rfl

theorem decode_subImm (imm : BitVec 12) {n t : Reg} (h : ImmFields 0xD1000000 0x344 n t) :
    decode (subImm12Word (t.setWidth 32) (n.setWidth 32) (imm.setWidth 32)) = some (.subImm imm n t) := by
  obtain ⟨hop, hrn, hrd, himm⟩ := immFields_word h imm (w := subImm12Word (t.setWidth 32) (n.setWidth 32) (imm.setWidth 32))
    (BitVec.or_assoc ..)
  unfold decode
  rw [hop, hrn, hrd, himm]
  rfl

theorem signExtend12_toNat (v : BitVec 12) :
    (v.signExtend 64).toNat = if v.toNat < 2048 then v.toNat else v.toNat + (2 ^ 64 - 2 ^ 12) := by
  have hlt := v.isLt
  rw [BitVec.toNat_signExtend, BitVec.toNat_setWidth, Nat.mod_eq_of_lt (by omega), BitVec.msb_eq_decide]
  by_cases h : v.toNat < 2048
  · have hmsb : ¬ 2 ^ (12 - 1) ≤ v.toNat := by omega
    rw [decide_eq_false hmsb, if_pos h]
    rfl
  · have hmsb : 2 ^ (12 - 1) ≤ v.toNat := by omega
    rw [decide_eq_true hmsb, if_neg h]
    rfl

theorem straight_addSimm (v : BitVec 12) (s : State) :
    Straight [addSimm 1 1 (v.signExtend 64)] s (s.set 1 (s.x 1 + v.signExtend 64)) := by
  have hext := signExtend12_toNat v
  have hlt := v.isLt
  unfold addSimm
  by_cases hv : v.toNat < 2048
  · rw [if_pos hv] at hext
    have hwide : v.signExtend 64 = v.setWidth 64 := by
      apply BitVec.eq_of_toNat_eq
      rw [hext, BitVec.toNat_setWidth, Nat.mod_eq_of_lt (by omega)]
    have hnarrow : (v.signExtend 64).setWidth 32 = v.setWidth 32 := by
      apply BitVec.eq_of_toNat_eq
      rw [BitVec.toNat_setWidth, BitVec.toNat_setWidth, hext]
    have hpos : 0 ≤ (v.signExtend 64).toInt := by
      rw [BitVec.toInt_eq_toNat_cond, if_pos (by omega)]
      omega
    rw [if_pos hpos, hnarrow, hwide]
    exact A64.straight_one (decode_addImm v (n := 1) (t := 1) (by unfold ImmFields; decide)) rfl
  · rw [if_neg hv] at hext
    have hneg : v.signExtend 64 = -(-v).setWidth 64 := by
      apply BitVec.eq_of_toNat_eq
      rw [hext, BitVec.toNat_neg, BitVec.toNat_setWidth, BitVec.toNat_neg]
      omega
    have hnarrow : (-(v.signExtend 64)).setWidth 32 = (-v).setWidth 32 := by
      apply BitVec.eq_of_toNat_eq
      rw [BitVec.toNat_setWidth, BitVec.toNat_neg, hext, BitVec.toNat_setWidth, BitVec.toNat_neg]
      omega
    have hpos : ¬ 0 ≤ (v.signExtend 64).toInt := by
      rw [BitVec.toInt_eq_toNat_cond, if_neg (by omega)]
      omega
    rw [if_neg hpos, hnarrow, hneg, ← BitVec.sub_eq_add_neg]
    exact A64.straight_one (decode_subImm (-v) (n := 1) (t := 1) (by unfold ImmFields; decide)) rfl

theorem decode_ldrReg : ∀ i : Reg, decode (ldrXWord 1 cpuReg (xoff i)) = some (.ldrX (i.setWidth 12) 19 1) ∧
    decode (ldrXWord 2 cpuReg (xoff i)) = some (.ldrX (i.setWidth 12) 19 2) := by decide

theorem decode_strReg : ∀ i : Reg, decode (strXWord 2 cpuReg (xoff i)) = some (.strX (i.setWidth 12) 19 2) := by
  decide

theorem decode_strPc : decode (strXWord 0 cpuReg offPc) = some (.strX 32 19 0) := by decide

section Guest

variable {base ram va : U64} {c : Cpu} {s : State}

/-- The machine runs code for the CPU `c` at `base`, with the address of an access in x1. -/
structure Ready (base ram va : U64) (c : Cpu) (s : State) : Prop where
  cpu : s.x 19 = base
  va : s.x 1 = va
  rep : Represents base ram s.mem c

theorem Ready.keeps {rs : List Reg} {s' : State} (h : Ready base ram va c s) (hk : Keeps rs s s') (h1 : 1 ∉ rs)
    (h19 : 19 ∉ rs) : Ready base ram va c s' :=
  ⟨(hk.x 19 h19).trans h.cpu, (hk.x 1 h1).trans h.va, hk.mem ▸ h.rep⟩

theorem regImm_eq : ∀ i : Reg, (i.setWidth 12).setWidth 64 * 8 = BitVec.ofNat 64 (8 * i.toNat) := by decide

theorem straight_loadGuest (hrep : Represents base ram s.mem c) (h0 : c.x 0 = 0) (hcpu : s.x 19 = base) {r : Reg}
    (hr : r = 1 ∨ r = 2) (i : BitVec 5) : Straight (loadGuest (r.setWidth 32) i) s (s.set r (c.x i)) := by
  have hr31 : r ≠ 31 := by rcases hr with rfl | rfl <;> decide
  unfold loadGuest
  by_cases hi : i = 0
  · rw [if_pos hi, hi, h0]
    exact straight_movImm r hr31 0 s
  · have hread : s.mem.read (s.base 19 + (i.setWidth 12).setWidth 64 * 8) 8 = c.x i := by
      rw [regImm_eq, ← hrep.x i, regOff_eq, ← hcpu]
      rfl
    rw [if_neg hi, ← hread]
    rcases hr with rfl | rfl
    · exact A64.straight_one (decode_ldrReg i).1 rfl
    · exact A64.straight_one (decode_ldrReg i).2 rfl

/-- **The value in x2 goes to the guest register.** -/
theorem straight_storeGuest (hrep : Represents base ram s.mem c) (hp : Placed base ram c) (hcpu : s.x 19 = base)
    (i : BitVec 5) : ∃ s', Straight (storeGuest 2 i) s s' ∧ Represents base ram s'.mem (c.wr i (s.x 2)) := by
  unfold storeGuest
  by_cases hi : i = 0
  · rw [if_pos hi, hi, wr_zero hp.zero]
    exact ⟨s, A64.straight_nil s, hrep⟩
  · rw [if_neg hi]
    refine ⟨_, A64.straight_one (decode_strReg i) rfl, ?_⟩
    show Represents base ram (s.mem.write (s.x 19 + (i.setWidth 12).setWidth 64 * 8) 8 (s.x 2)) _
    rw [regImm_eq, hcpu]
    exact hrep.setReg hp hi _

theorem Placed.setPc (hp : Placed base ram c) (pc : U64) : Placed base ram { c with pc := pc } :=
  ⟨hp.apart, hp.nonNull, hp.zero, hp.pages⟩

/-- **The code before an access** writes the pc and makes the address. -/
theorem straight_address (hrep : Represents base ram s.mem c) (hp : Placed base ram c) (hcpu : s.x 19 = base) (pc : U64)
    (v : BitVec 12) (rs1 : BitVec 5) :
    ∃ s', Straight (addressWords pc v rs1) s s' ∧ Ready base ram (c.x rs1 + v.signExtend 64) { c with pc := pc } s' := by
  have hpc : Straight [strXWord 0 cpuReg offPc] (s.set 0 pc) ((s.set 0 pc).store (byteAt base 256) 8 pc) := by
    refine A64.straight_one decode_strPc ?_
    subst hcpu
    rfl
  have hrep' := hrep.setPc hp pc
  have hload := straight_loadGuest (s := (s.set 0 pc).store (byteAt base 256) 8 pc) (r := 1) hrep' hp.zero hcpu (.inl rfl) rs1
  have hadd := straight_addSimm v (((s.set 0 pc).store (byteAt base 256) 8 pc).set 1 (c.x rs1))
  exact ⟨_, (straight_movImm 0 (by decide) pc s).append (hpc.append (hload.append hadd)), hcpu, rfl, hrep'⟩

/-! ## The checks of a fast path -/

/-- The registers a fast path works in. -/
def scratch : List Reg := [4, 5, 6, 7, 8, 9, 10, 11]

theorem lowBits12 (a : U64) : (a.extractLsb' 0 12).setWidth 64 = a &&& 0xFFF := by
  rw [A64.extract_setWidth]
  apply BitVec.eq_of_toNat_eq
  rw [BitVec.toNat_setWidth, BitVec.toNat_setWidth, BitVec.toNat_and]
  have hlt : a.toNat % 2 ^ 12 < 2 ^ 12 := Nat.mod_lt _ (by decide)
  exact (Nat.mod_eq_of_lt (by omega)).trans (Nat.and_two_pow_sub_one_eq_mod a.toNat 12).symm

theorem entry_address (base : U64) (i : BitVec 12) : i.setWidth 64 <<< 5 + base + 888 = byteAt base (entryOff i) := by
  rw [entryOff_eq]
  unfold byteAt
  apply BitVec.eq_of_toNat_eq
  have hlt := i.isLt
  have h888 : (888 : U64).toNat = 888 := rfl
  simp only [BitVec.toNat_add, BitVec.toNat_shiftLeft, BitVec.toNat_setWidth, BitVec.toNat_ofNat, Nat.shiftLeft_eq, h888]
  omega

/-- The words of the tag check, up to its branch. -/
def tagWords : List U32 :=
  [lsrImmWord 5 1 12, andImmWord 6 5 12, lslImmWord 6 6 5, addWord 6 6 cpuReg, addImm12Word 6 6 offTlb, ldrXWord 7 6 0,
    cmpWord 7 5]

theorem straight_entry (h : Ready base ram va c s) :
    ∃ s', Straight [lsrImmWord 5 1 12, andImmWord 6 5 12, lslImmWord 6 6 5, addWord 6 6 cpuReg, addImm12Word 6 6 offTlb] s s' ∧
      Keeps scratch s s' ∧ s'.x 5 = vpnOf va ∧ s'.x 6 = byteAt base (entryOff (tlbIndex va)) := by
  have hvpn : A64.ubfm 12 63 (s.x 1) = vpnOf va := by
    rw [h.va, A64.ubfm_lsr va (by decide)]
    rfl
  have hvpnStep : Straight [lsrImmWord 5 1 12] s (s.set 5 (vpnOf va)) := by
    refine A64.straight_one (i := .ubfm 12 63 1 5) (by decide) ?_
    rw [← hvpn]
    rfl
  let s5 := s.set 5 (vpnOf va)
  have hidx : Straight [andImmWord 6 5 12] s5 (s5.set 6 ((tlbIndex va).setWidth 64)) := by
    refine A64.straight_one (i := .andLow 11 5 6) (by decide) ?_
    have hlow : ((vpnOf va).extractLsb' 0 12).setWidth 64 = (tlbIndex va).setWidth 64 := by
      rw [A64.extract_setWidth]
      rfl
    rw [← hlow]
    rfl
  let s6 := s5.set 6 ((tlbIndex va).setWidth 64)
  have hshift : Straight [lslImmWord 6 6 5] s6 (s6.set 6 ((tlbIndex va).setWidth 64 <<< 5)) := by
    refine A64.straight_one (i := .ubfm 59 58 6 6) (by decide) ?_
    rw [← A64.ubfm_lsl _ (by decide) (by decide)]
    rfl
  let s7 := s6.set 6 ((tlbIndex va).setWidth 64 <<< 5)
  have hcpu : Straight [addWord 6 6 cpuReg] s7 (s7.set 6 ((tlbIndex va).setWidth 64 <<< 5 + base)) := by
    refine A64.straight_one (i := .add 19 6 6) (by decide) ?_
    rw [← h.cpu]
    rfl
  let s8 := s7.set 6 ((tlbIndex va).setWidth 64 <<< 5 + base)
  have htlb : Straight [addImm12Word 6 6 offTlb] s8 (s8.set 6 (byteAt base (entryOff (tlbIndex va)))) := by
    refine A64.straight_one (i := .addImm 888 6 6) (by decide) ?_
    have hbase : s8.base 6 = (tlbIndex va).setWidth 64 <<< 5 + base := rfl
    have h888 : (888 : BitVec 12).setWidth 64 = (888 : U64) := by decide
    show A64.Effect.next (s8.setBase 6 (s8.base 6 + (888 : BitVec 12).setWidth 64)) = _
    rw [A64.setBase_eq _ (by decide), hbase, h888, entry_address]
  refine ⟨_, hvpnStep.append (hidx.append (hshift.append (hcpu.append htlb))), ?_, rfl, rfl⟩
  exact ((((A64.keeps_set (by decide) (by decide)).set (by decide) (by decide)).set (by decide) (by decide)).set (by decide)
    (by decide)).set (by decide) (by decide)

theorem entryImm_eq (imm : BitVec 12) : imm.setWidth 64 * 8 = BitVec.ofNat 64 (8 * imm.toNat) := by
  apply BitVec.eq_of_toNat_eq
  have hlt := imm.isLt
  have h8 : (8 : U64).toNat = 8 := rfl
  simp only [BitVec.toNat_mul, BitVec.toNat_setWidth, BitVec.toNat_ofNat, h8]
  omega

theorem straight_tag (h : Ready base ram va c s) :
    ∃ s', Straight tagWords s s' ∧ Keeps scratch s s' ∧ s'.x 6 = byteAt base (entryOff (tlbIndex va)) ∧
      s'.z = ((c.tlbEntry va).vpn == vpnOf va) := by
  obtain ⟨s1, hentry, hkeeps, hx5, hx6⟩ := straight_entry h
  have hload : Straight [ldrXWord 7 6 0] s1 (s1.set 7 (c.tlbEntry va).vpn) := by
    have hvpn : s1.mem.read (byteAt (s1.x 6) 0) 8 = (c.tlbEntry va).vpn := by
      rw [hkeeps.mem, hx6]
      exact (h.rep.tlb (tlbIndex va)).vpn
    refine A64.straight_one (i := .ldrX 0 6 7) (by decide) ?_
    rw [← hvpn]
    show _ = A64.Effect.next (s1.set 7 (s1.mem.read (s1.x 6 + BitVec.ofNat 64 (8 * (0 : BitVec 12).toNat)) 8))
    rw [← entryImm_eq]
    rfl
  have hcmp : Straight [cmpWord 7 5] (s1.set 7 (c.tlbEntry va).vpn)
      ((s1.set 7 (c.tlbEntry va).vpn).compare (c.tlbEntry va).vpn (vpnOf va)) := by
    refine A64.straight_one (i := .subs 5 7 31) (by decide) ?_
    rw [← hx5]
    rfl
  refine ⟨_, hentry.append (hload.append hcmp), ?_, hx6, rfl⟩
  exact (hkeeps.set (by decide) (by decide)).trans A64.keeps_compare

/-- What the inline code asks of an entry: its tag, and a page of RAM. -/
def probed (te : TlbEntry) (va : U64) : Bool := te.vpn == vpnOf va && te.host_base.isSome

theorem decode_bne : ∀ d, d < 12 → decode (bcondWord condNE (d + 3)) = some (.bcond (BitVec.ofNat 19 (d + 3)) 1) ∧
    (BitVec.ofNat 19 (d + 3)).toInt = (d + 2 : Nat) + 1 := by decide

theorem decode_cbz8 : ∀ d, d < 12 → decode (cbzWord 8 (d + 1)) = some (.cbz (BitVec.ofNat 19 (d + 1)) 8) ∧
    (BitVec.ofNat 19 (d + 1)).toInt = d + 1 := by decide

theorem decode_cbz10 : ∀ d, d < 12 → decode (cbzWord 10 (d + 1)) = some (.cbz (BitVec.ofNat 19 (d + 1)) 10) ∧
    (BitVec.ofNat 19 (d + 1)).toInt = d + 1 := by decide

theorem hostPointer_zero (hp : Placed base ram c) (i : BitVec 12) :
    (hostPointer ram (c.tlb i).host_base == 0) = !(c.tlb i).host_base.isSome := by
  cases hhost : (c.tlb i).host_base with
  | none => rfl
  | some b =>
    have hlt : b < c.ram_size := by
      have := hp.pages i b hhost
      rw [BitVec.lt_def]
      omega
    exact beq_false_of_ne (hp.nonNull b hlt)

/-- **The probe** goes on with the host page in x8, or skips `d` words of what follows. -/
theorem run_probe (h : Ready base ram va c s) (hp : Placed base ram c) {d : Nat} (hd : d < 12) (rest : List U32) :
    ∃ s', Keeps scratch s s' ∧ s'.x 6 = byteAt base (entryOff (tlbIndex va)) ∧
      (probed (c.tlbEntry va) va = true → s'.x 8 = hostPointer ram (c.tlbEntry va).host_base) ∧
      run 0 (probeWords (bcondWord condNE (d + 3)) (cbzWord 8 (d + 1)) ++ rest) s =
        run 0 (if probed (c.tlbEntry va) va then rest else rest.drop d) s' := by
  obtain ⟨s1, htag, hkeeps, hx6, hz⟩ := straight_tag h
  obtain ⟨hbne, hdist⟩ := decode_bne d hd
  obtain ⟨hcbz, hdist'⟩ := decode_cbz8 d hd
  have hrun : run 0 (probeWords (bcondWord condNE (d + 3)) (cbzWord 8 (d + 1)) ++ rest) s =
      run 0 (if s1.holds 1 then rest.drop d else ldrXWord 8 6 16 :: cbzWord 8 (d + 1) :: rest) s1 :=
    (htag _).trans (A64.run_bcond hbne hdist _ _)
  have hne : s1.holds 1 = !((c.tlbEntry va).vpn == vpnOf va) := congrArg not hz
  rw [hrun, hne]
  unfold probed
  cases hvpn : (c.tlbEntry va).vpn == vpnOf va with
  | false => exact ⟨s1, hkeeps, hx6, fun e => absurd e (by simp), rfl⟩
  | true =>
    have hload : Straight [ldrXWord 8 6 16] s1 (s1.set 8 (hostPointer ram (c.tlbEntry va).host_base)) := by
      have hhost : s1.mem.read (byteAt (s1.x 6) 16) 8 = hostPointer ram (c.tlbEntry va).host_base := by
        rw [hkeeps.mem, hx6]
        exact (h.rep.tlb (tlbIndex va)).host_base
      refine A64.straight_one (i := .ldrX 2 6 8) (by decide) ?_
      rw [← hhost]
      show _ = A64.Effect.next (s1.set 8 (s1.mem.read (s1.x 6 + BitVec.ofNat 64 (8 * (2 : BitVec 12).toNat)) 8))
      rw [← entryImm_eq]
      rfl
    refine ⟨_, hkeeps.set (r := 8) (by decide) (by decide), hx6, fun _ => rfl, ?_⟩
    refine (hload _).trans ((A64.run_cbz hcbz hdist' rest _).trans ?_)
    have hzero : ((s1.set 8 (hostPointer ram (c.tlbEntry va).host_base)).get 8 == 0) = !(c.tlbEntry va).host_base.isSome :=
      hostPointer_zero hp (tlbIndex va)
    rw [hzero]
    cases (c.tlbEntry va).host_base.isSome <;> rfl

/-- **The dirty check** skips `d` words for a clean entry. -/
theorem run_dirty (h : Ready base ram va c s) (hx6 : s.x 6 = byteAt base (entryOff (tlbIndex va))) {d : Nat} (hd : d < 12)
    (rest : List U32) :
    ∃ s', Keeps [10] s s' ∧ run 0 (ldrbUoffWord 10 6 26 :: cbzWord 10 (d + 1) :: rest) s =
      run 0 (if (c.tlbEntry va).dirty then rest else rest.drop d) s' := by
  obtain ⟨hcbz, hdist⟩ := decode_cbz10 d hd
  let flag : U64 := (flagByte (c.tlbEntry va).dirty).setWidth 64
  have hload : Straight [ldrbUoffWord 10 6 26] s (s.set 10 flag) := by
    have hflag : s.mem.read (s.base 6 + (26 : BitVec 12).setWidth 64) 1 = flag := by
      have hdirty := (h.rep.tlb (tlbIndex va)).dirty
      rw [← hx6] at hdirty
      rw [Mem.read_one]
      exact congrArg (BitVec.setWidth 64) hdirty
    refine A64.straight_one (i := .ldrb 26 6 10) (by decide) ?_
    rw [← hflag]
    rfl
  refine ⟨s.set 10 flag, A64.keeps_set (by decide) (by decide), (hload _).trans ((A64.run_cbz hcbz hdist rest _).trans ?_)⟩
  have hzero : ((s.set 10 flag).get 10 == 0) = !(c.tlbEntry va).dirty := by
    show ((flagByte (c.tlbEntry va).dirty).setWidth 64 == 0) = _
    cases (c.tlbEntry va).dirty <;> rfl
  rw [hzero]
  cases (c.tlbEntry va).dirty <;> rfl

theorem size_imm {size : Nat} (h : size < 16) : BitVec.ofNat 32 size = (BitVec.ofNat 12 size).setWidth 32 := by
  apply BitVec.eq_of_toNat_eq
  simp only [BitVec.toNat_setWidth, BitVec.toNat_ofNat]
  omega

theorem decode_bhi : decode (bcondWord condHI 3) = some (.bcond 3 8) ∧ (3 : BitVec 19).toInt = (2 : Nat) + 1 := by
  decide

theorem crossesPage_one (va : U64) : crossesPage va 1 = false := by
  have hoff := pageOffset_toNat va
  exact decide_eq_false (by omega)

/-- **The page check** skips two words for an access that crosses a page, and leaves the place in the page in x9. -/
theorem run_page (h : Ready base ram va c s) {t : Reg} (ht : t = 10 ∨ t = 11) {size : Nat} (h1 : 1 ≤ size) (h16 : size < 16)
    (rest : List U32) :
    ∃ s', Keeps [4, 9, 10, 11] s s' ∧ s'.x 9 = pageOffset va ∧
      run 0 (andImmWord 9 1 12 :: (pageWords (t.setWidth 32) size (bcondWord condHI 3) ++ rest)) s =
        run 0 (if crossesPage va size then rest.drop 2 else rest) s' := by
  have hand : Straight [andImmWord 9 1 12] s (s.set 9 (pageOffset va)) := by
    refine A64.straight_one (i := .andLow 11 1 9) (by decide) ?_
    show A64.Effect.next (s.setBase 9 (((s.x 1).extractLsb' 0 12).setWidth 64)) = _
    rw [A64.setBase_eq _ (by decide), h.va, lowBits12]
    rfl
  unfold pageWords
  by_cases hs : 1 < size
  · have hoff := pageOffset_toNat va
    let s9 := s.set 9 (pageOffset va)
    let last := pageOffset va + BitVec.ofNat 64 size
    have hlast : last.toNat = (pageOffset va).toNat + size := by
      show (pageOffset va + BitVec.ofNat 64 size).toNat = _
      rw [BitVec.toNat_add, BitVec.toNat_ofNat]
      omega
    have ht31 : t ≠ 31 := by rcases ht with rfl | rfl <;> decide
    have ht4 : t ≠ 4 := by rcases ht with rfl | rfl <;> decide
    have ht9 : t ≠ 9 := by rcases ht with rfl | rfl <;> decide
    have hmem : t ∈ ([4, 9, 10, 11] : List Reg) := by rcases ht with rfl | rfl <;> decide
    have hadd : Straight [addImm12Word (t.setWidth 32) 9 (BitVec.ofNat 32 size)] s9 (s9.set t last) := by
      have hwide : (BitVec.ofNat 12 size).setWidth 64 = BitVec.ofNat 64 size := by
        apply BitVec.eq_of_toNat_eq
        simp only [BitVec.toNat_setWidth, BitVec.toNat_ofNat]
        omega
      rw [size_imm h16]
      have hfields : ImmFields 0x91000000 0x244 9 t := by
        unfold ImmFields
        rcases ht with rfl | rfl <;> decide
      refine A64.straight_one (decode_addImm _ (n := 9) hfields) ?_
      show A64.Effect.next (s9.setBase t (pageOffset va + _)) = _
      rw [A64.setBase_eq _ ht31, hwide]
    let s4 := (s9.set t last).set 4 4096
    have hmov : Straight [movz 0 4096 4] (s9.set t last) s4 := A64.straight_one (decode_movz 0 4096 4) rfl
    have hcmp : Straight [cmpWord (t.setWidth 32) 4] s4 (s4.compare last 4096) := by
      have hlast4 : s4.get t = last := by
        rw [A64.get_set (by decide), if_neg ht4, A64.set_get ht31]
      refine A64.straight_one (i := .subs 4 t 31) (by rcases ht with rfl | rfl <;> decide) ?_
      rw [← hlast4]
      rfl
    rw [if_pos hs]
    refine ⟨s4.compare last 4096, ?_, ?_, ?_⟩
    · exact (((A64.keeps_set (by decide) (by decide)).set ht31 hmem).set (by decide) (by decide)).trans A64.keeps_compare
    · show s4.x 9 = _
      rw [A64.set_x (by decide), if_neg (by decide), A64.set_x ht31, if_neg (Ne.symm ht9)]
      rfl
    · have hrun := (hand.append (hadd.append (hmov.append hcmp))) (bcondWord condHI 3 :: rest)
      refine hrun.trans ((A64.run_bcond decode_bhi.1 decode_bhi.2 rest _).trans ?_)
      have hhi : (s4.compare last 4096).holds 8 = crossesPage va size := by
        have h4096 : (4096 : U64).toNat = 4096 := rfl
        show (decide (4096 ≤ last) && !(last == 4096)) = decide (4096 < (pageOffset va).toNat + size)
        rw [← hlast, Bool.eq_iff_iff, Bool.and_eq_true, decide_eq_true_iff, Bool.not_eq_true', beq_eq_false_iff_ne,
          decide_eq_true_iff, BitVec.le_def, BitVec.toNat_ne, h4096]
        omega
      rw [hhi]
  · obtain rfl : size = 1 := by omega
    rw [if_neg hs, crossesPage_one]
    exact ⟨_, A64.keeps_set (r := 9) (by decide) (by decide), rfl, hand rest⟩

/-- When the inline code makes the access itself. -/
def inlineHits (store : Bool) (te : TlbEntry) (va : U64) (size : Nat) : Bool :=
  probed te va && (!store || te.dirty) && !crossesPage va size

theorem mem_scratch {r : Reg} (h : r ∈ ([4, 9, 10, 11] : List Reg)) : r ∈ scratch := by
  revert r
  decide

/-- From the dirty check on: the access and the jump behind it, or what follows these. -/
theorem run_checked (store : Bool) (h : Ready base ram va c s) (hx6 : s.x 6 = byteAt base (entryOff (tlbIndex va)))
    {t : Reg} (ht : t = 10 ∨ t = 11) {size : Nat} (h1 : 1 ≤ size) (h16 : size < 16) (access b : U32) (slow : List U32) :
    ∃ s', Keeps [4, 9, 10, 11] s s' ∧ ((!store || (c.tlbEntry va).dirty) = true → s'.x 9 = pageOffset va) ∧
      run 0 (dirtyWords store (cbzWord 10 (slowOff store size - 11)) ++
        (andImmWord 9 1 12 :: (pageWords (t.setWidth 32) size (bcondWord condHI 3) ++ access :: b :: slow))) s =
      run 0 (if (!store || (c.tlbEntry va).dirty) && !crossesPage va size then access :: b :: slow else slow) s' := by
  have hlast : ∀ x : Bool, (if x then (access :: b :: slow).drop 2 else access :: b :: slow) =
      if !x then access :: b :: slow else slow := fun x => by cases x <;> rfl
  cases store with
  | false =>
    obtain ⟨s', hkeeps, hx9, hrun⟩ := run_page h ht h1 h16 (access :: b :: slow)
    exact ⟨s', hkeeps, fun _ => hx9, hrun.trans (by rw [hlast]; rfl)⟩
  | true =>
    have hoff : slowOff true size - 11 = (if 1 < size then 4 else 0) + 3 + 1 := by
      unfold slowOff
      rw [if_pos rfl]
      omega
    have hskip : ∀ bhi, (andImmWord 9 1 12 :: (pageWords (t.setWidth 32) size bhi ++ access :: b :: slow)).drop
        ((if 1 < size then 4 else 0) + 3) = slow := by
      intro bhi
      unfold pageWords
      by_cases hs : 1 < size
      · rw [if_pos hs, if_pos hs]
        rfl
      · rw [if_neg hs, if_neg hs]
        rfl
    obtain ⟨s1, hkeeps, hrun⟩ := run_dirty h hx6 (d := (if 1 < size then 4 else 0) + 3) (by split <;> decide)
      (andImmWord 9 1 12 :: (pageWords (t.setWidth 32) size (bcondWord condHI 3) ++ access :: b :: slow))
    have hwide : Keeps [4, 9, 10, 11] s s1 := hkeeps.mono (by decide)
    rw [hskip] at hrun
    rw [hoff]
    cases hdirty : (c.tlbEntry va).dirty with
    | false =>
      rw [hdirty] at hrun
      exact ⟨s1, hwide, fun e => absurd e (by decide), hrun⟩
    | true =>
      rw [hdirty] at hrun
      obtain ⟨s', hkeeps', hx9, hrun'⟩ := run_page (h.keeps hkeeps (by decide) (by decide)) ht h1 h16 (access :: b :: slow)
      exact ⟨s', hwide.trans hkeeps', fun _ => hx9, hrun.trans (hrun'.trans (by rw [hlast]; rfl))⟩

/-- **A fast path** reaches its access, with the host page and the place in it, or the code behind it. -/
theorem run_fastPath (store : Bool) (h : Ready base ram va c s) (hp : Placed base ram c) {t : Reg} (ht : t = 10 ∨ t = 11)
    {size : Nat} (h1 : 1 ≤ size) (h16 : size < 16) (access b : U32) (slow : List U32) :
    ∃ s', Keeps scratch s s' ∧
      (inlineHits store (c.tlbEntry va) va size = true →
        s'.x 8 = hostPointer ram (c.tlbEntry va).host_base ∧ s'.x 9 = pageOffset va) ∧
      run 0 (fastPath store (t.setWidth 32) size access b ++ slow) s =
        run 0 (if inlineHits store (c.tlbEntry va) va size then access :: b :: slow else slow) s' := by
  let tail := dirtyWords store (cbzWord 10 (slowOff store size - 11)) ++
    (andImmWord 9 1 12 :: (pageWords (t.setWidth 32) size (bcondWord condHI 3) ++ access :: b :: slow))
  let d := slowOff store size - 10
  have hd : d < 12 := by
    show slowOff store size - 10 < 12
    unfold slowOff
    split <;> split <;> decide
  have hoff : slowOff store size - 7 = d + 3 ∧ slowOff store size - 9 = d + 1 := by
    show slowOff store size - 7 = slowOff store size - 10 + 3 ∧ slowOff store size - 9 = slowOff store size - 10 + 1
    unfold slowOff
    split <;> split <;> decide
  have hskip : tail.drop d = slow := by
    show (dirtyWords store _ ++ (andImmWord 9 1 12 :: (pageWords _ size _ ++ access :: b :: slow))).drop
      (slowOff store size - 10) = slow
    unfold pageWords slowOff
    by_cases hs : 1 < size
    · rw [if_pos hs, if_pos hs]
      cases store <;> rfl
    · rw [if_neg hs, if_neg hs]
      cases store <;> rfl
  have hwords : fastPath store (t.setWidth 32) size access b ++ slow =
      probeWords (bcondWord condNE (d + 3)) (cbzWord 8 (d + 1)) ++ tail := by
    rw [← hoff.1, ← hoff.2]
    show fastWords .. ++ slow = _
    unfold fastWords
    rw [List.append_assoc, List.append_assoc, List.cons_append, List.append_assoc]
    rfl
  obtain ⟨s1, hkeeps, hx6, hx8, hrun⟩ := run_probe h hp hd tail
  rw [hskip] at hrun
  rw [hwords, hrun]
  unfold inlineHits
  cases hprobe : probed (c.tlbEntry va) va with
  | false => exact ⟨s1, hkeeps, fun e => absurd e Bool.false_ne_true, rfl⟩
  | true =>
    obtain ⟨s', hkeeps', hx9, hrun'⟩ := run_checked store (h.keeps hkeeps (by decide) (by decide)) hx6 ht h1 h16 access b slow
    refine ⟨s', hkeeps.trans (hkeeps'.mono fun _ hmem => mem_scratch hmem), fun hhit => ⟨?_, ?_⟩, ?_⟩
    · exact (hkeeps'.x 8 (by decide)).trans (hx8 hprobe)
    · exact hx9 (Bool.and_eq_true_iff.1 hhit).1
    · exact hrun'

end Guest

/-! ## The calls behind a fast path -/

section Calls

variable {s : State}

theorem straight_mov (s : State) (r : Reg) {q : Reg} (hq : q ≠ 31)
    (hdecode : decode (movWord (r.setWidth 32) (q.setWidth 32)) = some (.orr q 31 r)) :
    Straight [movWord (r.setWidth 32) (q.setWidth 32)] s (s.set r (s.x q)) := by
  refine A64.straight_one hdecode ?_
  have hget : 0 ||| s.get q = s.x q := BitVec.zero_or.trans (if_neg hq)
  show A64.Effect.next (s.set r (0 ||| s.get q)) = _
  rw [hget]

theorem decode_size : ∀ size, size < 16 → decode (movzWWord 2 (BitVec.ofNat 16 size)) = some (.movzW (BitVec.ofNat 16 size) 2) ∧
    (BitVec.ofNat 16 size).setWidth 64 = BitVec.ofNat 64 size := by decide

theorem straight_size (s : State) {size : Nat} (h : size < 16) :
    Straight [movzWWord 2 (BitVec.ofNat 16 size)] s (s.set 2 (BitVec.ofNat 64 size)) := by
  obtain ⟨hdecode, hwide⟩ := decode_size size h
  rw [← hwide]
  exact A64.straight_one hdecode rfl

/-- The arguments of `rv64_jit_load`, and its address in x16. -/
theorem run_loadCall (s : State) (h : Helpers) {size : Nat} (hsize : size < 16) (cbnz : U32) (rest : List U32) :
    ∃ s', run 0 (loadCallWords h size cbnz ++ rest) s = .call 16 s' ∧ s'.x 16 = h.fn_load ∧ s'.x 0 = s.x 19 ∧
      s'.x 1 = s.x 1 ∧ s'.x 2 = BitVec.ofNat 64 size ∧ s'.x 3 = s.sp ∧ s'.mem = s.mem := by
  let s0 := s.set 0 (s.x 19)
  let s2 := s0.set 2 (BitVec.ofNat 64 size)
  have hsp : Straight [addImm12Word 3 31 0] s2 (s2.set 3 s.sp) := by
    refine A64.straight_one (decode_addImm 0 (n := 31) (t := 3) (by unfold ImmFields; decide)) ?_
    have hzero : s.sp + 0 = s.sp := BitVec.add_zero _
    show A64.Effect.next (s2.setBase 3 (s.sp + 0)) = _
    rw [A64.setBase_eq _ (by decide), hzero]
  have hargs := (straight_mov s 0 (q := 19) (by decide) (by decide)).append ((straight_size s0 hsize).append (hsp.append
    (straight_movImm 16 (by decide) h.fn_load _)))
  have hblr : decode (blrWord 16) = some (.blr 16) := by decide
  refine ⟨(s2.set 3 s.sp).set 16 h.fn_load, ?_, rfl, rfl, rfl, rfl, rfl, rfl⟩
  refine Eq.trans ?_ ((hargs _).trans (A64.run_call hblr (cbnz :: ldrXWord 2 31 0 :: rest) _))
  simp only [loadCallWords, List.append_assoc, List.cons_append, List.nil_append]
  rfl

theorem run_storeCall (s : State) (h : Helpers) {size : Nat} (hsize : size < 16) (cbnz : U32) (rest : List U32) :
    ∃ s', run 0 (storeCallWords h size cbnz ++ rest) s = .call 16 s' ∧ s'.x 16 = h.fn_store ∧ s'.x 0 = s.x 19 ∧
      s'.x 1 = s.x 1 ∧ s'.x 2 = BitVec.ofNat 64 size ∧ s'.x 3 = s.x 2 ∧ s'.mem = s.mem := by
  let s0 := s.set 0 (s.x 19)
  let s3 := s0.set 3 (s.x 2)
  have hargs := (straight_mov s 0 (q := 19) (by decide) (by decide)).append ((straight_mov s0 3 (q := 2) (by decide) (by decide)).append
    ((straight_size s3 hsize).append (straight_movImm 16 (by decide) h.fn_store _)))
  have hblr : decode (blrWord 16) = some (.blr 16) := by decide
  refine ⟨(s3.set 2 (BitVec.ofNat 64 size)).set 16 h.fn_store, ?_, rfl, rfl, rfl, rfl, rfl, rfl⟩
  refine Eq.trans ?_ ((hargs _).trans (A64.run_call hblr (cbnz :: rest) _))
  simp only [storeCallWords, List.append_assoc, List.cons_append, List.nil_append]
  rfl

end Calls

end Arm64
end PgLinux
