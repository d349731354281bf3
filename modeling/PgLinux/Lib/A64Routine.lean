import PgLinux.Lib.A64
/-!
# A64Routine — more of the ARM64 instruction set, and routines

The arithmetic beside that of `A64`, pairs on the stack, calls and returns.  What a call does is a relation on states and
on a world that the code itself cannot see; a routine finishes when its runs return whatever its calls do.
-/
namespace A64

open PgLinux (Mem)

/-! ## Instructions -/

inductive Alu where
  | add | sub | and | eor | orn | lslv | lsrv | asrv | mul
deriving DecidableEq

/-- The result, of operands of 64 or 32 bits. -/
def Alu.eval {w : Nat} (a b : BitVec w) : Alu → BitVec w
  | .add => a + b
  | .sub => a - b
  | .and => a &&& b
  | .eor => a ^^^ b
  | .orn => a ||| ~~~b
  | .lslv => a <<< (b.toNat % w)
  | .lsrv => a >>> (b.toNat % w)
  | .asrv => a.sshiftRight (b.toNat % w)
  | .mul => a * b

inductive Op where
  | base (i : Insn)
  | alu (f : Alu) (rm rn rd : Reg)
  | aluW (f : Alu) (rm rn rd : Reg)
  | smulh (rm rn rd : Reg)
  | umulh (rm rn rd : Reg)
  | csinc (cond : BitVec 4) (rm rn rd : Reg)
  | addImmW (imm : BitVec 12) (rn rd : Reg)
  | subImmW (imm : BitVec 12) (rn rd : Reg)
  | ubfmW (immr imms : BitVec 6) (rn rd : Reg)
  | sbfmW (immr imms : BitVec 6) (rn rd : Reg)
  | cbnzW (off : BitVec 19) (rt : Reg)
  | stp (imm : BitVec 7) (rt2 rn rt : Reg)
  | stpPre (imm : BitVec 7) (rt2 rn rt : Reg)
  | ldp (imm : BitVec 7) (rt2 rn rt : Reg)
  | ldpPost (imm : BitVec 7) (rt2 rn rt : Reg)
  | ret (rn : Reg)
deriving DecidableEq

section Decode

variable (w : BitVec 32)

def imm7 : BitVec 7 := w.extractLsb' 15 7
def rt2 : Reg := w.extractLsb' 10 5

/-- Register operations, by the bits above the second operand and those below it. -/
def decodeAlu : Option Op :=
  match (w.extractLsb' 21 11).toNat, (imms w).toNat with
  | 0x658, 0 => some (.alu .sub (rm w) (rn w) (rd w))
  | 0x450, 0 => some (.alu .and (rm w) (rn w) (rd w))
  | 0x650, 0 => some (.alu .eor (rm w) (rn w) (rd w))
  | 0x551, 0 => some (.alu .orn (rm w) (rn w) (rd w))
  | 0x4D6, 8 => some (.alu .lslv (rm w) (rn w) (rd w))
  | 0x4D6, 9 => some (.alu .lsrv (rm w) (rn w) (rd w))
  | 0x4D6, 10 => some (.alu .asrv (rm w) (rn w) (rd w))
  | 0x4D8, 31 => some (.alu .mul (rm w) (rn w) (rd w))
  | 0x4DA, 31 => some (.smulh (rm w) (rn w) (rd w))
  | 0x4DE, 31 => some (.umulh (rm w) (rn w) (rd w))
  | 0x058, 0 => some (.aluW .add (rm w) (rn w) (rd w))
  | 0x258, 0 => some (.aluW .sub (rm w) (rn w) (rd w))
  | 0x0D6, 8 => some (.aluW .lslv (rm w) (rn w) (rd w))
  | 0x0D6, 9 => some (.aluW .lsrv (rm w) (rn w) (rd w))
  | 0x0D6, 10 => some (.aluW .asrv (rm w) (rn w) (rd w))
  | 0x0D8, 31 => some (.aluW .mul (rm w) (rn w) (rd w))
  | 0x4D4, _ => if w.extractLsb' 10 2 = 1 then some (.csinc (w.extractLsb' 12 4) (rm w) (rn w) (rd w)) else none
  | _, _ => none

/-- The operations with a constant; those on 32 bits have no bit 5 in its parts. -/
def decodeImm : Option Op :=
  match (w.extractLsb' 22 10).toNat with
  | 0x044 => some (.addImmW (imm12 w) (rn w) (rd w))
  | 0x144 => some (.subImmW (imm12 w) (rn w) (rd w))
  | 0x14C => if (immr w).msb || (imms w).msb then none else some (.ubfmW (immr w) (imms w) (rn w) (rd w))
  | 0x04C => if (immr w).msb || (imms w).msb then none else some (.sbfmW (immr w) (imms w) (rn w) (rd w))
  | 0x2A4 => some (.stp (imm7 w) (rt2 w) (rn w) (rd w))
  | 0x2A6 => some (.stpPre (imm7 w) (rt2 w) (rn w) (rd w))
  | 0x2A5 => some (.ldp (imm7 w) (rt2 w) (rn w) (rd w))
  | 0x2A3 => some (.ldpPost (imm7 w) (rt2 w) (rn w) (rd w))
  | _ =>
    if w.extractLsb' 24 8 = 0x35 then some (.cbnzW (w.extractLsb' 5 19) (rd w))
    else if w &&& 0xFFFFFC1F = 0xD65F0000 then some (.ret (rn w))
    else none

def decodeOp : Option Op :=
  match decode w with
  | some i => some (.base i)
  | none => (decodeAlu w).or (decodeImm w)

end Decode

/-! ## Execution -/

def State.getW (s : State) (r : Reg) : BitVec 32 := (s.get r).setWidth 32

/-- A result of 32 bits clears the upper half. -/
def State.setW (s : State) (r : Reg) (v : BitVec 32) : State := s.set r (v.setWidth 64)

def ubfmW (immr imms : Nat) (a : BitVec 32) : BitVec 32 :=
  if immr ≤ imms then (a.extractLsb' immr (imms - immr + 1)).setWidth 32
  else (a.extractLsb' 0 (imms + 1)).setWidth 32 <<< (32 - immr)

def sbfmW (immr imms : Nat) (a : BitVec 32) : BitVec 32 :=
  if immr ≤ imms then (a.extractLsb' immr (imms - immr + 1)).signExtend 32
  else (a.extractLsb' 0 (imms + 1)).signExtend 32 <<< (32 - immr)

/-- The offset of a pair. -/
def pairOff (imm : BitVec 7) : BitVec 64 := imm.signExtend 64 * 8

def State.storePair (s : State) (a : BitVec 64) (rt rt2 : Reg) : State :=
  (s.store a 8 (s.get rt)).store (a + 8) 8 (s.get rt2)

def State.loadPair (s : State) (a : BitVec 64) (rt rt2 : Reg) : State :=
  (s.set rt (s.mem.read a 8)).set rt2 (s.mem.read (a + 8) 8)

/-- Calls and returns name the address they go to. -/
inductive Outcome where
  | next (s : State)
  | skip (words : Nat) (s : State)
  | call (target : BitVec 64) (s : State)
  | ret (target : BitVec 64) (s : State)
  | stuck

def Effect.outcome : Effect → Outcome
  | .next s => .next s
  | .skip k s => .skip k s
  | .call r s => .call (s.get r) s
  | .stuck => .stuck

def execOp (s : State) : Op → Outcome
  | .base i => (exec s i).outcome
  | .alu f rm rn rd => .next (s.set rd (f.eval (s.get rn) (s.get rm)))
  | .aluW f rm rn rd => .next (s.setW rd (f.eval (s.getW rn) (s.getW rm)))
  | .smulh rm rn rd => .next (s.set rd (((s.get rn).signExtend 128 * (s.get rm).signExtend 128) >>> 64 |>.setWidth 64))
  | .umulh rm rn rd => .next (s.set rd (((s.get rn).setWidth 128 * (s.get rm).setWidth 128) >>> 64 |>.setWidth 64))
  | .csinc cond rm rn rd => .next (s.set rd (if s.holds cond then s.get rn else s.get rm + 1))
  | .addImmW imm rn rd => .next (s.setW rd (s.getW rn + imm.setWidth 32))
  | .subImmW imm rn rd => .next (s.setW rd (s.getW rn - imm.setWidth 32))
  | .ubfmW immr imms rn rd => .next (s.setW rd (ubfmW immr.toNat imms.toNat (s.getW rn)))
  | .sbfmW immr imms rn rd => .next (s.setW rd (sbfmW immr.toNat imms.toNat (s.getW rn)))
  | .cbnzW off rt => (branch (s.getW rt != 0) off.toInt s).outcome
  | .stp imm rt2 rn rt => .next (s.storePair (s.base rn + pairOff imm) rt rt2)
  | .stpPre imm rt2 rn rt => .next ((s.storePair (s.base rn + pairOff imm) rt rt2).setBase rn (s.base rn + pairOff imm))
  | .ldp imm rt2 rn rt => .next (s.loadPair (s.base rn + pairOff imm) rt rt2)
  | .ldpPost imm rt2 rn rt => .next ((s.loadPair (s.base rn) rt rt2).setBase rn (s.base rn + pairOff imm))
  | .ret rn => .ret (s.get rn) s

def stepOp (s : State) (w : BitVec 32) : Outcome :=
  match decodeOp w with
  | none => .stuck
  | some i => execOp s i

/-- Where a run comes to: at a call there are words still to run. -/
inductive Halt where
  | call (target : BitVec 64) (s : State) (rest : List (BitVec 32))
  | ret (target : BitVec 64) (s : State)
  | stuck

/-- The words in order, the first `skip` of them left out. -/
def runOps : Nat → List (BitVec 32) → State → Halt
  | _, [], _ => .stuck
  | skip + 1, _ :: ws, s => runOps skip ws s
  | 0, w :: ws, s =>
    match stepOp s w with
    | .next s => runOps 0 ws s
    | .skip k s => runOps k ws s
    | .call t s => .call t s ws
    | .ret t s => .ret t s
    | .stuck => .stuck

/-! ## Comparisons -/

/-- The sign of a difference is wrong where it overflows. -/
theorem compare_sign (a b : BitVec 64) : ((a - b).msb != (a.msb != b.msb && (a - b).msb != a.msb)) = a.slt b := by
  have ha := a.isLt
  have hb := b.isLt
  have hsub : (a - b).toNat = (2 ^ 64 - b.toNat + a.toNat) % 2 ^ 64 := BitVec.toNat_sub a b
  have hmsb : ∀ x : BitVec 64, x.msb = decide (2 ^ 63 ≤ x.toNat) := fun x => BitVec.msb_eq_decide x
  rw [BitVec.slt_eq_ult, hmsb, hmsb, hmsb, BitVec.ult]
  by_cases h1 : 2 ^ 63 ≤ a.toNat
  · by_cases h2 : 2 ^ 63 ≤ b.toNat
    · have hd : 2 ^ 63 ≤ (a - b).toNat ↔ a.toNat < b.toNat := by omega
      rw [decide_eq_true h1, decide_eq_true h2, decide_eq_decide.2 hd]
      cases decide (a.toNat < b.toNat) <;> rfl
    · have hlt : ¬ a.toNat < b.toNat := by omega
      rw [decide_eq_true h1, decide_eq_false h2, decide_eq_false hlt]
      cases decide (2 ^ 63 ≤ (a - b).toNat) <;> rfl
  · by_cases h2 : 2 ^ 63 ≤ b.toNat
    · have hlt : a.toNat < b.toNat := by omega
      rw [decide_eq_false h1, decide_eq_true h2, decide_eq_true hlt]
      cases decide (2 ^ 63 ≤ (a - b).toNat) <;> rfl
    · have hd : 2 ^ 63 ≤ (a - b).toNat ↔ a.toNat < b.toNat := by omega
      rw [decide_eq_false h1, decide_eq_false h2, decide_eq_decide.2 hd]
      cases decide (a.toNat < b.toNat) <;> rfl

section Comparisons

variable (s : State) (a b : BitVec 64)

theorem compare_hs : (s.compare a b).holds 2 = decide (b ≤ a) := rfl

theorem compare_lo : (s.compare a b).holds 3 = decide (a < b) := by
  show (!decide (b ≤ a)) = _
  rw [← decide_not]
  exact decide_eq_decide.2 BitVec.not_le

theorem compare_lt : (s.compare a b).holds 11 = a.slt b := compare_sign a b

theorem compare_ge : (s.compare a b).holds 10 = !a.slt b := by
  rw [← compare_sign]
  show ((a - b).msb == (a.msb != b.msb && (a - b).msb != a.msb)) = _
  generalize (a - b).msb = n
  generalize (a.msb != b.msb && n != a.msb) = v
  cases n <;> cases v <;> rfl

end Comparisons

/-! ## Shifts as bit fields -/

section Shifts

variable {n : Nat} (a : BitVec n) {k : Nat}

theorem extract_lsr (hk : k < n) : (a.extractLsb' k (n - 1 - k + 1)).setWidth n = a >>> k := by
  apply BitVec.eq_of_getLsbD_eq
  intro i hi
  rw [BitVec.getLsbD_setWidth, BitVec.getLsbD_extractLsb', BitVec.getLsbD_ushiftRight, decide_eq_true hi, Bool.true_and]
  by_cases h : i < n - 1 - k + 1
  · rw [decide_eq_true h, Bool.true_and]
  · rw [decide_eq_false h, BitVec.getLsbD_of_ge _ _ (by omega), Bool.false_and]

theorem extract_asr (hk : k < n) : (a.extractLsb' k (n - 1 - k + 1)).signExtend n = a.sshiftRight k := by
  apply BitVec.eq_of_getLsbD_eq
  intro i hi
  have hlast : k + (n - 1 - k + 1 - 1) = n - 1 := by omega
  rw [BitVec.getLsbD_signExtend, BitVec.getLsbD_sshiftRight, BitVec.getLsbD_extractLsb', BitVec.msb_eq_getLsbD_last,
    BitVec.getLsbD_extractLsb', BitVec.msb_eq_getLsbD_last, hlast, decide_eq_true hi,
    decide_eq_true (show n - 1 - k + 1 - 1 < n - 1 - k + 1 by omega), decide_eq_false (Nat.not_le.2 hi)]
  by_cases h : i < n - 1 - k + 1
  · rw [if_pos h, if_pos (show k + i < n by omega), decide_eq_true h]
    rfl
  · rw [if_neg h, if_neg (show ¬ k + i < n by omega)]
    rfl

theorem extract_lsl (hk : k < n) : (a.extractLsb' 0 (n - 1 - k + 1)).setWidth n <<< k = a <<< k := by
  apply BitVec.eq_of_getLsbD_eq
  intro i hi
  rw [BitVec.getLsbD_shiftLeft, BitVec.getLsbD_shiftLeft, BitVec.getLsbD_setWidth, BitVec.getLsbD_extractLsb', Nat.zero_add]
  by_cases h : i < k
  · rw [decide_eq_true h]
    simp
  · rw [decide_eq_true (show i - k < n by omega), decide_eq_true (show i - k < n - 1 - k + 1 by omega), Bool.true_and,
      Bool.true_and]

end Shifts

theorem sbfm_asr (a : BitVec 64) {k : Nat} (hk : k < 64) : sbfm k 63 a = a.sshiftRight k :=
  (if_pos (by omega)).trans (extract_asr a hk)

theorem ubfmW_lsr (a : BitVec 32) {k : Nat} (hk : k < 32) : ubfmW k 31 a = a >>> k :=
  (if_pos (by omega)).trans (extract_lsr a hk)

theorem sbfmW_asr (a : BitVec 32) {k : Nat} (hk : k < 32) : sbfmW k 31 a = a.sshiftRight k :=
  (if_pos (by omega)).trans (extract_asr a hk)

theorem ubfmW_lsl (a : BitVec 32) {k : Nat} (h0 : 0 < k) (hk : k < 32) : ubfmW (32 - k) (31 - k) a = a <<< k := by
  have hback : 32 - (32 - k) = k := by omega
  refine (if_neg (by omega)).trans ?_
  rw [hback]
  exact extract_lsl a hk

/-! ## Words with a constant in them -/

section Words

variable {w : BitVec 32}

/-- The operations of `decodeImm` whose constants vary are none of those that are looked for first. -/
theorem decodeOp_imm (h : (w.extractLsb' 22 10).toNat ∈ [0x044, 0x144, 0x0D4, 0x0D5, 0x0D6, 0x0D7]) :
    decodeOp w = decodeImm w := by
  generalize hc : (w.extractLsb' 22 10).toNat = c at h
  have hcode := hc
  rw [BitVec.extractLsb'_toNat, Nat.shiftRight_eq_div_pow] at hc
  have h21 : (w.extractLsb' 21 11).toNat = 2 * c ∨ (w.extractLsb' 21 11).toNat = 2 * c + 1 := by
    rw [BitVec.extractLsb'_toNat, Nat.shiftRight_eq_div_pow]
    omega
  have h26 : (w.extractLsb' 26 6).toNat = c / 16 := by
    rw [BitVec.extractLsb'_toNat, Nat.shiftRight_eq_div_pow]
    omega
  have h24 : (w.extractLsb' 24 8).toNat = c / 4 := by
    rw [BitVec.extractLsb'_toNat, Nat.shiftRight_eq_div_pow]
    omega
  have hblr : ¬ w &&& 0xFFFFFC1F#32 = 0xD63F0000#32 := by
    intro hw
    have htop := congrArg (fun v : BitVec 32 => (v.extractLsb' 24 8 : BitVec 8)) hw
    have hall : ((0xFFFFFC1F#32).extractLsb' 24 8 : BitVec 8) = BitVec.allOnes 8 := by decide
    simp only [BitVec.extractLsb'_and, hall, BitVec.and_allOnes] at htop
    have hval := congrArg BitVec.toNat htop
    rw [h24] at hval
    have hc4 : c / 4 ≠ 0xD6 := by
      simp only [List.mem_cons, List.not_mem_nil, or_false] at h
      omega
    exact hc4 hval
  have hnone : decode w = none ∧ decodeAlu w = none := by
    unfold decode decodeAlu decodeReg decodeArith decodeBranch
    simp only [List.mem_cons, List.not_mem_nil, or_false] at h
    rcases h21 with h21 | h21 <;> rcases h with rfl | rfl | rfl | rfl | rfl | rfl <;> simp [hcode, h21, h26, h24, hblr]
  unfold decodeOp
  rw [hnone.1, hnone.2]
  rfl

theorem decode_addImmW (imm : BitVec 12) (hw : w = (0x11000000 : BitVec 32) ||| imm.setWidth 32 <<< 10 ||| 0) :
    decodeOp w = some (.addImmW imm 0 0) := by
  obtain ⟨hcode, hrn, hrd, himm⟩ := imm12_fields hw (by decide)
  have h44 : ((0x11000000 ||| 0 : BitVec 32).extractLsb' 22 10).toNat = 0x044 := by decide
  have h0 : rn (0x11000000 ||| 0) = 0 ∧ rd (0x11000000 ||| 0) = 0 := by decide
  rw [decodeOp_imm (by rw [hcode, h44]; decide), decodeImm, hcode, h44, hrn, hrd, himm, h0.1, h0.2]
  rfl

theorem decode_subImmW (imm : BitVec 12) (hw : w = (0x51000000 : BitVec 32) ||| imm.setWidth 32 <<< 10 ||| 0) :
    decodeOp w = some (.subImmW imm 0 0) := by
  obtain ⟨hcode, hrn, hrd, himm⟩ := imm12_fields hw (by decide)
  have h144 : ((0x51000000 ||| 0 : BitVec 32).extractLsb' 22 10).toNat = 0x144 := by decide
  have h0 : rn (0x51000000 ||| 0) = 0 ∧ rd (0x51000000 ||| 0) = 0 := by decide
  rw [decodeOp_imm (by rw [hcode, h144]; decide), decodeImm, hcode, h144, hrn, hrd, himm, h0.1, h0.2]
  rfl

theorem decode_cbnzW (off : BitVec 19) (hw : w = (0x35000000 : BitVec 32) ||| off.setWidth 32 <<< 5 ||| 0) :
    decodeOp w = some (.cbnzW off 0) := by
  have htop : (w.extractLsb' 24 8).toNat = 0x35 := by
    rw [hw, extract_other _ _ off (.inr (by decide))]
    decide
  have hoff : w.extractLsb' 5 19 = off := by
    rw [hw]
    exact extract_field _ _ off (by decide) (by decide)
  have hrd : rd w = 0 := by
    rw [rd, hw, extract_other _ _ off (.inl (by decide))]
    decide
  have hcode : (w.extractLsb' 22 10).toNat = 0x0D4 ∨ (w.extractLsb' 22 10).toNat = 0x0D5 ∨
      (w.extractLsb' 22 10).toNat = 0x0D6 ∨ (w.extractLsb' 22 10).toNat = 0x0D7 := by
    rw [BitVec.extractLsb'_toNat, Nat.shiftRight_eq_div_pow] at htop ⊢
    omega
  have h35 : w.extractLsb' 24 8 = 0x35 := BitVec.eq_of_toNat_eq htop
  have himm : decodeImm w = if w.extractLsb' 24 8 = 0x35 then some (.cbnzW (w.extractLsb' 5 19) (rd w))
      else if w &&& 0xFFFFFC1F = 0xD65F0000 then some (.ret (rn w)) else none := by
    unfold decodeImm
    rcases hcode with h | h | h | h <;> (rw [h]; rfl)
  rw [decodeOp_imm (by rcases hcode with h | h | h | h <;> rw [h] <;> decide), himm, if_pos h35, hoff, hrd]

end Words

/-! ## Code that lands -/

theorem runOps_drop : ∀ (k : Nat) (ws : List (BitVec 32)) (s : State), runOps k ws s = runOps 0 (ws.drop k) s
  | 0, _, _ => rfl
  | _ + 1, [], _ => rfl
  | k + 1, _ :: ws, s => runOps_drop k ws s

/-- `ws` leads from `s` to `s'`, `d` words behind its end. -/
def Lands (ws : List (BitVec 32)) (s s' : State) (d : Nat) : Prop :=
  ∀ rest, runOps 0 (ws ++ rest) s = runOps 0 (rest.drop d) s'

/-- `ws` leads from `s` to `s'` at its end. -/
abbrev Goes (ws : List (BitVec 32)) (s s' : State) : Prop := Lands ws s s' 0

theorem goes_nil (s : State) : Goes [] s s := fun _ => rfl

theorem Goes.lands {ws vs : List (BitVec 32)} {s s' s'' : State} {d : Nat} (h : Goes ws s s') (h' : Lands vs s' s'' d) :
    Lands (ws ++ vs) s s'' d := by
  intro rest
  rw [List.append_assoc, h, List.drop_zero, h']

theorem Lands.over {ws vs : List (BitVec 32)} {s s' : State} {d : Nat} (h : Lands ws s s' (vs.length + d)) :
    Lands (ws ++ vs) s s' d := by
  intro rest
  rw [List.append_assoc, h, List.drop_append, List.drop_of_length_le (Nat.le_add_right ..), List.nil_append,
    Nat.add_sub_cancel_left]

theorem goes_op {w : BitVec 32} {i : Op} {s s' : State} (hw : decodeOp w = some i) (hi : execOp s i = .next s') :
    Goes [w] s s' := by
  intro rest
  simp only [List.cons_append, List.nil_append, runOps, stepOp, hw, hi, List.drop_zero]

theorem Goes.op {w : BitVec 32} {i : Op} {ws : List (BitVec 32)} {s s' s'' : State} {d : Nat} (hw : decodeOp w = some i)
    (hi : execOp s i = .next s') (h : Lands ws s' s'' d) : Lands (w :: ws) s s'' d :=
  (goes_op hw hi).lands h

theorem lands_skip {w : BitVec 32} {i : Op} {s s' : State} {k : Nat} (hw : decodeOp w = some i)
    (hi : execOp s i = .skip k s') : Lands [w] s s' k := by
  intro rest
  simp only [List.cons_append, List.nil_append, runOps, stepOp, hw, hi]
  exact runOps_drop k rest s'

theorem decodeOp_base {w : BitVec 32} {i : Insn} (hw : decode w = some i) : decodeOp w = some (.base i) := by
  unfold decodeOp
  rw [hw]

/-- A branch, taken or not. -/
theorem lands_branch {w : BitVec 32} {i : Op} {s : State} {taken : Bool} {off : Int} {k : Nat} (hw : decodeOp w = some i)
    (hi : execOp s i = (branch taken off s).outcome) (h : off = k + 1) : Lands [w] s s (if taken then k else 0) := by
  rw [branch_ahead h] at hi
  cases taken with
  | true => exact lands_skip hw hi
  | false => exact goes_op hw hi

theorem lands_b {w : BitVec 32} {off : BitVec 26} {k : Nat} (hw : decode w = some (.b off)) (h : off.toInt = k + 1)
    (s : State) : Lands [w] s s k := by
  have hlands : Lands [w] s s (if true = true then k else 0) := lands_branch (decodeOp_base hw) rfl h
  exact hlands

theorem lands_bcond {w : BitVec 32} {off : BitVec 19} {cond : BitVec 4} {k : Nat} (hw : decode w = some (.bcond off cond))
    (h : off.toInt = k + 1) (s : State) : Lands [w] s s (if s.holds cond then k else 0) :=
  lands_branch (decodeOp_base hw) rfl h

/-! ## Code of the smaller set

A run of `A64` that comes to the end of the code does so here as well.  Two calls put behind the code show where it ends. -/

/-- The words behind the end of `ws` that a run leaves out, and the state it is in there. -/
def lands : Nat → List (BitVec 32) → State → Option (Nat × State)
  | k, [], s => some (k, s)
  | k + 1, _ :: ws, s => lands k ws s
  | 0, w :: ws, s =>
    match step s w with
    | .next s => lands 0 ws s
    | .skip k s => lands k ws s
    | .call .. => none
    | .stuck => none

theorem stepOp_of_step {s : State} {w : BitVec 32} {e : Effect} (h : step s w = e) (hne : e ≠ .stuck) :
    stepOp s w = e.outcome := by
  unfold step at h
  cases hdec : decode w with
  | none =>
    rw [hdec] at h
    exact absurd h.symm hne
  | some i =>
    rw [hdec] at h
    simp only [stepOp, decodeOp_base hdec, execOp]
    exact congrArg Effect.outcome h

theorem run_lands : ∀ (ws : List (BitVec 32)) (k : Nat) (s : State) {d : Nat} {s' : State}, lands k ws s = some (d, s') →
    ∀ rest, run k (ws ++ rest) s = run d rest s' ∧ runOps k (ws ++ rest) s = runOps d rest s'
  | [], k, s, d, s', h, rest => by
    cases k <;> (cases h; exact ⟨rfl, rfl⟩)
  | _ :: ws, k + 1, s, d, s', h, rest => run_lands ws k s h rest
  | w :: ws, 0, s, d, s', h, rest => by
    cases hstep : step s w with
    | next s1 =>
      have hop := stepOp_of_step hstep (by simp)
      simp only [lands, hstep] at h
      simp only [List.cons_append, run, runOps, hstep, hop]
      exact run_lands ws 0 s1 h rest
    | skip k s1 =>
      have hop := stepOp_of_step hstep (by simp)
      simp only [lands, hstep] at h
      simp only [List.cons_append, run, runOps, hstep, hop]
      exact run_lands ws k s1 h rest
    | call r s1 =>
      simp only [lands, hstep] at h
      cases h
    | stuck =>
      simp only [lands, hstep] at h
      cases h

/-- A run that does not come to the end of the code does not depend on what is behind it. -/
theorem run_none : ∀ (ws : List (BitVec 32)) (k : Nat) (s : State), lands k ws s = none →
    ∀ rest rest', run k (ws ++ rest) s = run k (ws ++ rest') s
  | [], k, s, h, _, _ => by cases k <;> cases h
  | _ :: ws, k + 1, s, h, rest, rest' => run_none ws k s h rest rest'
  | w :: ws, 0, s, h, rest, rest' => by
    cases hstep : step s w with
    | next s1 =>
      simp only [lands, hstep] at h
      simp only [List.cons_append, run, hstep]
      exact run_none ws 0 s1 h rest rest'
    | skip k s1 =>
      simp only [lands, hstep] at h
      simp only [List.cons_append, run, hstep]
      exact run_none ws k s1 h rest rest'
    | call r s1 => simp only [List.cons_append, run, hstep]
    | stuck => simp only [List.cons_append, run, hstep]

/-- `BLR` of two registers. -/
def probe (r : Reg) : BitVec 32 := 0xD63F0000 ||| r.setWidth 32 <<< 5

theorem decode_probe : decode (probe 0) = some (.blr 0) ∧ decode (probe 1) = some (.blr 1) := by decide

/-- Code leads to one state: a call put behind it shows which. -/
theorem Goes.unique {ws : List (BitVec 32)} {s s' s'' : State} (h : Goes ws s s') (h' : Goes ws s s'') : s' = s'' := by
  have hcall : ∀ t : State, runOps 0 [probe 0] t = .call (t.get 0) t [] := by
    intro t
    simp only [runOps, stepOp, decodeOp_base decode_probe.1, execOp, exec, Effect.outcome]
  have heq := (h [probe 0]).symm.trans (h' [probe 0])
  rw [List.drop_zero, hcall, hcall] at heq
  injection heq

/-- **Code that leads to its end in the smaller set does so here.**  Where it leads to may be known only for one code
behind it. -/
theorem goes_of_runs {P : State → Prop} {ws : List (BitVec 32)} {s : State}
    (h : ∀ w v rest, ∃ s', P s' ∧ run 0 (ws ++ w :: v :: rest) s = run 0 (w :: v :: rest) s') :
    ∃ s', P s' ∧ Goes ws s s' := by
  obtain ⟨s', hp, h0⟩ := h (probe 0) (probe 1) []
  obtain ⟨s1, -, h1⟩ := h (probe 1) (probe 0) []
  rw [run_call decode_probe.1] at h0
  rw [run_call decode_probe.2] at h1
  cases hland : lands 0 ws s with
  | none =>
    have hsame := run_none ws 0 s hland [probe 0, probe 1] [probe 1, probe 0]
    rw [h0, h1] at hsame
    cases hsame
  | some p =>
    obtain ⟨d, t⟩ := p
    have hrun := run_lands ws 0 s hland
    match d with
    | 0 =>
      have ht : Exit.call 0 t = .call 0 s' := by
        rw [← h0, (hrun _).1]
        exact (run_call decode_probe.1 _ t).symm
      cases ht
      exact ⟨_, hp, fun rest => (hrun rest).2⟩
    | 1 =>
      have hlate : run 0 (ws ++ [probe 0, probe 1]) s = .call 1 t := by
        rw [(hrun _).1]
        exact run_call decode_probe.2 [] t
      rw [h0] at hlate
      cases hlate
    | d + 2 =>
      have hpast : run 0 (ws ++ [probe 0, probe 1]) s = .done t := by
        rw [(hrun _).1]
        show run d [] t = _
        cases d <;> rfl
      rw [h0] at hpast
      cases hpast

theorem goes_of_run {ws : List (BitVec 32)} {s s' : State}
    (h : ∀ w rest, run 0 (ws ++ w :: rest) s = run 0 (w :: rest) s') : Goes ws s s' := by
  obtain ⟨_, rfl, hgoes⟩ := goes_of_runs (P := (· = s')) fun w v rest => ⟨s', rfl, h w (v :: rest)⟩
  exact hgoes

theorem Straight.goes {ws : List (BitVec 32)} {s s' : State} (h : Straight ws s s') : Goes ws s s' :=
  goes_of_run fun w rest => h (w :: rest)

/-! ## Routines -/

section Routines

variable {W : Type} {call : W → BitVec 64 → State → W → State → Prop} {Q : W → BitVec 64 → State → Prop}

/-- The run of `ws` in the world `w` returns, to a place and in a state that `Q` allows: every call in it can be answered,
and whatever the answers are. -/
inductive Finishes (call : W → BitVec 64 → State → W → State → Prop) (Q : W → BitVec 64 → State → Prop) :
    W → List (BitVec 32) → State → Prop
  | ret {w : W} {ws : List (BitVec 32)} {s s' : State} {target : BitVec 64} (hrun : runOps 0 ws s = .ret target s')
    (hq : Q w target s') : Finishes call Q w ws s
  | call {w : W} {ws rest : List (BitVec 32)} {s t : State} {target : BitVec 64}
    (hrun : runOps 0 ws s = .call target t rest) (hsome : ∃ w' t', call w target t w' t')
    (hcalls : ∀ w' t', call w target t w' t' → Finishes call Q w' rest t') : Finishes call Q w ws s

theorem Finishes.congr {w : W} {ws vs : List (BitVec 32)} {s s' : State} (h : Finishes call Q w vs s')
    (hrun : runOps 0 ws s = runOps 0 vs s') : Finishes call Q w ws s := by
  cases h with
  | ret hret hq => exact .ret (hrun.trans hret) hq
  | call hcall hsome hcalls => exact .call (hrun.trans hcall) hsome hcalls

theorem Finishes.lands {w : W} {ws rest : List (BitVec 32)} {s s' : State} {d : Nat}
    (h : Finishes call Q w (rest.drop d) s') (hl : Lands ws s s' d) : Finishes call Q w (ws ++ rest) s :=
  h.congr (hl rest)

theorem Finishes.goes {w : W} {ws rest : List (BitVec 32)} {s s' : State} (h : Finishes call Q w rest s')
    (hg : Goes ws s s') : Finishes call Q w (ws ++ rest) s :=
  h.congr (hg rest)

theorem finishes_ret {w : W} {u : BitVec 32} {r : Reg} {rest : List (BitVec 32)} {s : State}
    (hu : decodeOp u = some (.ret r)) (hq : Q w (s.get r) s) : Finishes call Q w (u :: rest) s := by
  refine .ret ?_ hq
  simp only [runOps, stepOp, hu, execOp]

theorem finishes_call {w : W} {u : BitVec 32} {r : Reg} {rest : List (BitVec 32)} {s : State}
    (hu : decode u = some (.blr r)) (hsome : ∃ w' t', call w (s.get r) s w' t')
    (h : ∀ w' t', call w (s.get r) s w' t' → Finishes call Q w' rest t') : Finishes call Q w (u :: rest) s := by
  refine .call ?_ hsome h
  simp only [runOps, stepOp, decodeOp_base hu, execOp, exec, Effect.outcome]

theorem runOps_append : ∀ (ws : List (BitVec 32)) (k : Nat) (s : State) (more : List (BitVec 32)),
    (∀ target s', runOps k ws s = .ret target s' → runOps k (ws ++ more) s = .ret target s') ∧
      ∀ target s' rest, runOps k ws s = .call target s' rest → runOps k (ws ++ more) s = .call target s' (rest ++ more)
  | [], k, s, more => by
    constructor
    · intro target s' h
      cases k <;> cases h
    · intro target s' rest h
      cases k <;> cases h
  | _ :: ws, k + 1, s, more => runOps_append ws k s more
  | w :: ws, 0, s, more => by
    simp only [List.cons_append, runOps]
    cases stepOp s w with
    | next s1 => exact runOps_append ws 0 s1 more
    | skip k s1 => exact runOps_append ws k s1 more
    | call target s1 =>
      constructor
      · intro target s' h
        cases h
      · intro target s' rest h
        cases h
        rfl
    | ret target s1 =>
      constructor
      · exact fun _ _ h => h
      · intro target s' rest h
        cases h
    | stuck =>
      constructor
      · intro target s' h
        cases h
      · intro target s' rest h
        cases h

/-- A routine does not see what stands behind it. -/
theorem Finishes.append {w : W} {ws : List (BitVec 32)} {s : State} (h : Finishes call Q w ws s) (more : List (BitVec 32)) :
    Finishes call Q w (ws ++ more) s := by
  induction h with
  | ret hrun hq => exact .ret ((runOps_append _ 0 _ more).1 _ _ hrun) hq
  | call hrun hsome _ ih => exact .call ((runOps_append _ 0 _ more).2 _ _ _ hrun) hsome ih

theorem Finishes.mono {Q' : W → BitVec 64 → State → Prop} {w : W} {ws : List (BitVec 32)} {s : State}
    (h : Finishes call Q w ws s) (hq : ∀ w target s, Q w target s → Q' w target s) : Finishes call Q' w ws s := by
  induction h with
  | ret hrun h => exact .ret hrun (hq _ _ _ h)
  | call hrun hsome _ ih => exact .call hrun hsome ih

end Routines

end A64
