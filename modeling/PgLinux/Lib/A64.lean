import PgLinux.Lib.Bytes
/-!
# A64 — a part of the ARM64 instruction set

Code is a list of words, decoded and run in order; a branch skips words ahead.  A run ends where the code does, at a call,
or at a word outside this part.  Register 31 is the stack pointer as a base and in immediate arithmetic, and zero elsewhere.
-/
namespace A64

open PgLinux (Mem)

abbrev Reg := BitVec 5

/-! ## Instructions -/

inductive Insn where
  | movz (hw : BitVec 2) (imm : BitVec 16) (rd : Reg)
  | movk (hw : BitVec 2) (imm : BitVec 16) (rd : Reg)
  | addImm (imm : BitVec 12) (rn rd : Reg)
  | subImm (imm : BitVec 12) (rn rd : Reg)
  | ldrX (imm : BitVec 12) (rn rt : Reg)
  | strX (imm : BitVec 12) (rn rt : Reg)
  | movzW (imm : BitVec 16) (rd : Reg)
  | ldrb (imm : BitVec 12) (rn rt : Reg)
  | ldrReg (size : Nat) (rm rn rt : Reg)
  | strReg (size : Nat) (rm rn rt : Reg)
  | add (rm rn rd : Reg)
  | subs (rm rn rd : Reg)
  | orr (rm rn rd : Reg)
  | andLow (imms : BitVec 6) (rn rd : Reg)
  | ubfm (immr imms : BitVec 6) (rn rd : Reg)
  | sbfm (immr imms : BitVec 6) (rn rd : Reg)
  | bcond (off : BitVec 19) (cond : BitVec 4)
  | cbz (off : BitVec 19) (rt : Reg)
  | b (off : BitVec 26)
  | blr (rn : Reg)
deriving DecidableEq

section Decode

variable (w : BitVec 32)

def rd : Reg := w.extractLsb' 0 5
def rn : Reg := w.extractLsb' 5 5
def rm : Reg := w.extractLsb' 16 5
def imm12 : BitVec 12 := w.extractLsb' 10 12
def imm16 : BitVec 16 := w.extractLsb' 5 16
def hw : BitVec 2 := w.extractLsb' 21 2
def immr : BitVec 6 := w.extractLsb' 16 6
def imms : BitVec 6 := w.extractLsb' 10 6

/-- Loads and stores at `[Xn, Xm]`, by size: the operation, from the bits above the base. -/
def decodeReg : Option Insn :=
  if imms w = 0x1A then
    match (w.extractLsb' 21 11).toNat with
    | 0x1C3 => some (.ldrReg 1 (rm w) (rn w) (rd w))
    | 0x3C3 => some (.ldrReg 2 (rm w) (rn w) (rd w))
    | 0x5C3 => some (.ldrReg 4 (rm w) (rn w) (rd w))
    | 0x7C3 => some (.ldrReg 8 (rm w) (rn w) (rd w))
    | 0x1C1 => some (.strReg 1 (rm w) (rn w) (rd w))
    | 0x3C1 => some (.strReg 2 (rm w) (rn w) (rd w))
    | 0x5C1 => some (.strReg 4 (rm w) (rn w) (rd w))
    | 0x7C1 => some (.strReg 8 (rm w) (rn w) (rd w))
    | _ => none
  else none

/-- Register arithmetic, of unshifted operands. -/
def decodeArith : Option Insn :=
  if imms w = 0 then
    match (w.extractLsb' 21 11).toNat with
    | 0x458 => some (.add (rm w) (rn w) (rd w))
    | 0x758 => some (.subs (rm w) (rn w) (rd w))
    | 0x550 => some (.orr (rm w) (rn w) (rd w))
    | _ => none
  else none

def decodeBranch : Option Insn :=
  match (w.extractLsb' 26 6).toNat, (w.extractLsb' 24 8).toNat with
  | 0x05, _ => some (.b (w.extractLsb' 0 26))
  | _, 0x54 => if w.getLsbD 4 then none else some (.bcond (w.extractLsb' 5 19) (w.extractLsb' 0 4))
  | _, 0xB4 => some (.cbz (w.extractLsb' 5 19) (rd w))
  | _, _ => if w &&& 0xFFFFFC1F = 0xD63F0000 then some (.blr (rn w)) else none

def decode : Option Insn :=
  match (w.extractLsb' 22 10).toNat with
  | 0x34A | 0x34B => some (.movz (hw w) (imm16 w) (rd w))
  | 0x3CA | 0x3CB => some (.movk (hw w) (imm16 w) (rd w))
  | 0x14A => if w.getLsbD 21 then none else some (.movzW (imm16 w) (rd w))
  | 0x244 => some (.addImm (imm12 w) (rn w) (rd w))
  | 0x344 => some (.subImm (imm12 w) (rn w) (rd w))
  | 0x3E5 => some (.ldrX (imm12 w) (rn w) (rd w))
  | 0x3E4 => some (.strX (imm12 w) (rn w) (rd w))
  | 0x0E5 => some (.ldrb (imm12 w) (rn w) (rd w))
  | 0x249 => if immr w = 0 then some (.andLow (imms w) (rn w) (rd w)) else none
  | 0x34D => some (.ubfm (immr w) (imms w) (rn w) (rd w))
  | 0x24D => some (.sbfm (immr w) (imms w) (rn w) (rd w))
  | _ => ((decodeReg w).or (decodeArith w)).or (decodeBranch w)

end Decode

/-! ## Execution -/

structure State where
  x : Reg → BitVec 64
  sp : BitVec 64
  n : Bool
  z : Bool
  c : Bool
  v : Bool
  mem : Mem

def State.get (s : State) (r : Reg) : BitVec 64 := if r = 31 then 0 else s.x r
def State.base (s : State) (r : Reg) : BitVec 64 := if r = 31 then s.sp else s.x r

def State.put (s : State) (r : Reg) (v : BitVec 64) : State := { s with x := fun q => if q = r then v else s.x q }
def State.set (s : State) (r : Reg) (v : BitVec 64) : State := if r = 31 then s else s.put r v
def State.setBase (s : State) (r : Reg) (v : BitVec 64) : State := if r = 31 then { s with sp := v } else s.put r v

def State.store (s : State) (a : BitVec 64) (size : Nat) (v : BitVec 64) : State := { s with mem := s.mem.write a size v }

/-- The flags of `a - b`. -/
def State.compare (s : State) (a b : BitVec 64) : State :=
  { s with
    n := (a - b).msb
    z := a == b
    c := decide (b ≤ a)
    v := a.msb != b.msb && (a - b).msb != a.msb }

def State.holds (s : State) (cond : BitVec 4) : Bool :=
  match cond.toNat with
  | 0 => s.z
  | 1 => !s.z
  | 2 => s.c
  | 3 => !s.c
  | 4 => s.n
  | 5 => !s.n
  | 6 => s.v
  | 7 => !s.v
  | 8 => s.c && !s.z
  | 9 => !(s.c && !s.z)
  | 10 => s.n == s.v
  | 11 => s.n != s.v
  | 12 => !s.z && s.n == s.v
  | 13 => !(!s.z && s.n == s.v)
  | _ => true

/-- A part of 16 bits replaced. -/
def insert16 (a : BitVec 64) (hw : BitVec 2) (imm : BitVec 16) : BitVec 64 :=
  (a &&& ~~~((0xFFFF : BitVec 64) <<< (16 * hw.toNat))) ||| imm.setWidth 64 <<< (16 * hw.toNat)

def ubfm (immr imms : Nat) (a : BitVec 64) : BitVec 64 :=
  if immr ≤ imms then (a.extractLsb' immr (imms - immr + 1)).setWidth 64
  else (a.extractLsb' 0 (imms + 1)).setWidth 64 <<< (64 - immr)

def sbfm (immr imms : Nat) (a : BitVec 64) : BitVec 64 :=
  if immr ≤ imms then (a.extractLsb' immr (imms - immr + 1)).signExtend 64
  else (a.extractLsb' 0 (imms + 1)).signExtend 64 <<< (64 - immr)

inductive Effect where
  | next (s : State)
  | skip (words : Nat) (s : State)
  | call (rn : Reg) (s : State)
  | stuck

/-- A branch by `off` words, ahead only. -/
def branch (taken : Bool) (off : Int) (s : State) : Effect :=
  if taken then if 0 < off then .skip (off.toNat - 1) s else .stuck else .next s

def exec (s : State) : Insn → Effect
  | .movz hw imm rd => .next (s.set rd (imm.setWidth 64 <<< (16 * hw.toNat)))
  | .movk hw imm rd => .next (s.set rd (insert16 (s.get rd) hw imm))
  | .addImm imm rn rd => .next (s.setBase rd (s.base rn + imm.setWidth 64))
  | .subImm imm rn rd => .next (s.setBase rd (s.base rn - imm.setWidth 64))
  | .ldrX imm rn rt => .next (s.set rt (s.mem.read (s.base rn + imm.setWidth 64 * 8) 8))
  | .strX imm rn rt => .next (s.store (s.base rn + imm.setWidth 64 * 8) 8 (s.get rt))
  | .movzW imm rd => .next (s.set rd (imm.setWidth 64))
  | .ldrb imm rn rt => .next (s.set rt (s.mem.read (s.base rn + imm.setWidth 64) 1))
  | .ldrReg size rm rn rt => .next (s.set rt (s.mem.read (s.base rn + s.get rm) size))
  | .strReg size rm rn rt => .next (s.store (s.base rn + s.get rm) size (s.get rt))
  | .add rm rn rd => .next (s.set rd (s.get rn + s.get rm))
  | .subs rm rn rd => .next ((s.compare (s.get rn) (s.get rm)).set rd (s.get rn - s.get rm))
  | .orr rm rn rd => .next (s.set rd (s.get rn ||| s.get rm))
  | .andLow imms rn rd => .next (s.setBase rd ((s.get rn).extractLsb' 0 (imms.toNat + 1) |>.setWidth 64))
  | .ubfm immr imms rn rd => .next (s.set rd (ubfm immr.toNat imms.toNat (s.get rn)))
  | .sbfm immr imms rn rd => .next (s.set rd (sbfm immr.toNat imms.toNat (s.get rn)))
  | .bcond off cond => branch (s.holds cond) off.toInt s
  | .cbz off rt => branch (s.get rt == 0) off.toInt s
  | .b off => branch true off.toInt s
  | .blr rn => .call rn s

def step (s : State) (w : BitVec 32) : Effect :=
  match decode w with
  | none => .stuck
  | some i => exec s i

inductive Exit where
  | done (s : State)
  | call (rn : Reg) (s : State)
  | stuck

/-- The words in order, the first `skip` of them left out. -/
def run : Nat → List (BitVec 32) → State → Exit
  | _, [], s => .done s
  | skip + 1, _ :: ws, s => run skip ws s
  | 0, w :: ws, s =>
    match step s w with
    | .next s => run 0 ws s
    | .skip k s => run k ws s
    | .call rn s => .call rn s
    | .stuck => .stuck

/-! ## Runs -/

theorem run_drop : ∀ (k : Nat) (ws : List (BitVec 32)) (s : State), run k ws s = run 0 (ws.drop k) s
  | 0, _, _ => rfl
  | _ + 1, [], _ => rfl
  | k + 1, _ :: ws, s => run_drop k ws s

theorem run_next {w : BitVec 32} {i : Insn} {s s' : State} (hw : decode w = some i) (hi : exec s i = .next s')
    (ws : List (BitVec 32)) : run 0 (w :: ws) s = run 0 ws s' := by
  simp only [run, step, hw, hi]

theorem run_skip {w : BitVec 32} {i : Insn} {s s' : State} {k : Nat} (hw : decode w = some i) (hi : exec s i = .skip k s')
    (ws : List (BitVec 32)) : run 0 (w :: ws) s = run 0 (ws.drop k) s' := by
  rw [← run_drop]
  simp only [run, step, hw, hi]

theorem run_call {w : BitVec 32} {rn : Reg} (hw : decode w = some (.blr rn)) (ws : List (BitVec 32)) (s : State) :
    run 0 (w :: ws) s = .call rn s := by
  simp only [run, step, hw, exec]

theorem branch_ahead {off : Int} {k : Nat} (h : off = k + 1) (taken : Bool) (s : State) :
    branch taken off s = if taken then .skip k s else .next s := by
  have hpos : 0 < off := by omega
  have hk : off.toNat - 1 = k := by omega
  unfold branch
  rw [if_pos hpos, hk]

theorem run_branch {w : BitVec 32} {i : Insn} {s : State} {taken : Bool} {k : Nat} (hw : decode w = some i)
    (hi : exec s i = if taken then .skip k s else .next s) (ws : List (BitVec 32)) :
    run 0 (w :: ws) s = run 0 (if taken then ws.drop k else ws) s := by
  cases taken with
  | true => exact run_skip hw hi ws
  | false => exact run_next hw hi ws

theorem run_bcond {w : BitVec 32} {off : BitVec 19} {cond : BitVec 4} {k : Nat} (hw : decode w = some (.bcond off cond))
    (h : off.toInt = k + 1) (ws : List (BitVec 32)) (s : State) :
    run 0 (w :: ws) s = run 0 (if s.holds cond then ws.drop k else ws) s :=
  run_branch hw (branch_ahead h _ s) ws

theorem run_cbz {w : BitVec 32} {off : BitVec 19} {rt : Reg} {k : Nat} (hw : decode w = some (.cbz off rt))
    (h : off.toInt = k + 1) (ws : List (BitVec 32)) (s : State) :
    run 0 (w :: ws) s = run 0 (if s.get rt == 0 then ws.drop k else ws) s :=
  run_branch hw (branch_ahead h _ s) ws

theorem run_b {w : BitVec 32} {off : BitVec 26} {k : Nat} (hw : decode w = some (.b off)) (h : off.toInt = k + 1)
    (ws : List (BitVec 32)) (s : State) : run 0 (w :: ws) s = run 0 (ws.drop k) s :=
  have hi : exec s (.b off) = if true then .skip k s else .next s := branch_ahead h true s
  run_branch hw hi ws

/-- `ws` is straight-line code that leads from `s` to `s'`. -/
def Straight (ws : List (BitVec 32)) (s s' : State) : Prop := ∀ rest, run 0 (ws ++ rest) s = run 0 rest s'

theorem straight_nil (s : State) : Straight [] s s := fun _ => rfl

theorem straight_one {w : BitVec 32} {i : Insn} {s s' : State} (hw : decode w = some i) (hi : exec s i = .next s') :
    Straight [w] s s' := fun rest => run_next hw hi rest

theorem Straight.append {ws vs : List (BitVec 32)} {s s' s'' : State} (h : Straight ws s s') (h' : Straight vs s' s'') :
    Straight (ws ++ vs) s s'' := by
  intro rest
  rw [List.append_assoc, h, h']

theorem Straight.cons {w : BitVec 32} {i : Insn} {ws : List (BitVec 32)} {s s' s'' : State} (hw : decode w = some i)
    (hi : exec s i = .next s') (h : Straight ws s' s'') : Straight (w :: ws) s s'' :=
  (straight_one hw hi).append h

/-! ## Registers -/

section Registers

variable {s : State} {r q : Reg} {u v : BitVec 64}

theorem set_x (hr : r ≠ 31) : (s.set r v).x q = if q = r then v else s.x q := by
  unfold State.set
  rw [if_neg hr]
  rfl

theorem set_set (hr : r ≠ 31) : (s.set r u).set r v = s.set r v := by
  unfold State.set
  rw [if_neg hr, if_neg hr, if_neg hr]
  unfold State.put
  dsimp only
  congr 1
  funext q
  split <;> rfl

theorem set_same (hr : r ≠ 31) : s.set r (s.x r) = s := by
  unfold State.set
  rw [if_neg hr]
  unfold State.put
  have hx : (fun q => if q = r then s.x r else s.x q) = s.x := by
    funext q
    exact ite_eq_right_iff.2 fun h => congrArg s.x h.symm
  rw [hx]

theorem set_get (hr : r ≠ 31) : (s.set r v).get r = v := by
  unfold State.get
  rw [if_neg hr, set_x hr, if_pos rfl]

theorem get_set (hr : r ≠ 31) : (s.set r v).get q = if q = r then v else s.get q := by
  unfold State.get
  rw [set_x hr]
  by_cases hq : q = 31
  · have hqr : q ≠ r := fun e => hr (e ▸ hq)
    rw [if_pos hq, if_neg hqr, if_pos hq]
  · rw [if_neg hq, if_neg hq]

theorem set_mem (hr : r ≠ 31) : (s.set r v).mem = s.mem := by
  unfold State.set
  rw [if_neg hr]
  rfl

/-- `s'` is `s` but for the registers `rs` and the flags. -/
structure Keeps (rs : List Reg) (s s' : State) : Prop where
  x : ∀ q, q ∉ rs → s'.x q = s.x q
  sp : s'.sp = s.sp
  mem : s'.mem = s.mem

theorem keeps_set {rs : List Reg} (hr : r ≠ 31) (hmem : r ∈ rs) : Keeps rs s (s.set r v) where
  x q hq := by
    have hne : q ≠ r := by
      rintro rfl
      exact hq hmem
    rw [set_x hr, if_neg hne]
  sp := by
    unfold State.set
    rw [if_neg hr]
    rfl
  mem := set_mem hr

theorem keeps_compare {rs : List Reg} : Keeps rs s (s.compare u v) := ⟨fun _ _ => rfl, rfl, rfl⟩

theorem Keeps.trans {rs : List Reg} {s' s'' : State} (h : Keeps rs s s') (h' : Keeps rs s' s'') : Keeps rs s s'' :=
  ⟨fun q hq => (h'.x q hq).trans (h.x q hq), h'.sp.trans h.sp, h'.mem.trans h.mem⟩

theorem Keeps.set {rs : List Reg} {s' : State} (h : Keeps rs s s') (hr : r ≠ 31) (hmem : r ∈ rs) : Keeps rs s (s'.set r v) :=
  h.trans (keeps_set hr hmem)

theorem Keeps.mono {rs qs : List Reg} {s' : State} (h : Keeps rs s s') (hsub : rs ⊆ qs) : Keeps qs s s' :=
  ⟨fun q hq => h.x q fun hin => hq (hsub hin), h.sp, h.mem⟩

end Registers

theorem setBase_eq {s : State} {r : Reg} (v : BitVec 64) (hr : r ≠ 31) : s.setBase r v = s.set r v := by
  unfold State.setBase State.set
  rw [if_neg hr, if_neg hr]

/-! ## Bit fields -/

theorem extract_setWidth (a : BitVec 64) (n : Nat) : a.extractLsb' 0 n = a.setWidth n := by
  ext i hi
  simp [BitVec.getElem_extractLsb', BitVec.getElem_setWidth]

theorem ubfm_lsr (a : BitVec 64) {k : Nat} (hk : k < 64) : ubfm k 63 a = a >>> k := by
  unfold ubfm
  rw [if_pos (by omega)]
  apply BitVec.eq_of_getLsbD_eq
  intro i hi
  rw [BitVec.getLsbD_setWidth, BitVec.getLsbD_extractLsb', BitVec.getLsbD_ushiftRight, decide_eq_true hi, Bool.true_and]
  by_cases h : i < 63 - k + 1
  · rw [decide_eq_true h, Bool.true_and]
  · rw [decide_eq_false h, BitVec.getLsbD_of_ge _ _ (by omega), Bool.false_and]

theorem ubfm_lsl (a : BitVec 64) {k : Nat} (h0 : 0 < k) (hk : k < 64) : ubfm (64 - k) (63 - k) a = a <<< k := by
  unfold ubfm
  rw [if_neg (by omega)]
  apply BitVec.eq_of_getLsbD_eq
  intro i hi
  have hback : 64 - (64 - k) = k := by omega
  rw [hback, extract_setWidth, BitVec.getLsbD_shiftLeft, BitVec.getLsbD_shiftLeft, BitVec.getLsbD_setWidth,
    BitVec.getLsbD_setWidth]
  by_cases h : i < k
  · rw [decide_eq_true h]
    simp
  · have hlow : i - k < 64 ∧ i - k < 63 - k + 1 := by omega
    rw [decide_eq_true hlow.1, decide_eq_true hlow.2, Bool.true_and, Bool.true_and]

/-! ## Fields of a word -/

section Fields

variable {n : Nat} (k r : BitVec 32) (f : BitVec n)

theorem extract_field {p : Nat} (hp : p + n ≤ 32) (h : (k ||| r).extractLsb' p n = 0) :
    (k ||| f.setWidth 32 <<< p ||| r).extractLsb' p n = f := by
  ext i hi
  have hkr := congrArg (fun b : BitVec n => b.getLsbD i) h
  simp only [BitVec.getLsbD_extractLsb', BitVec.getLsbD_or, hi, decide_true, Bool.true_and] at hkr
  have hnot : ¬ p + i < p := by omega
  have hlt : p + i < 32 := by omega
  have hi32 : i < 32 := by omega
  simp only [BitVec.getElem_extractLsb', BitVec.getLsbD_or, BitVec.getLsbD_shiftLeft, BitVec.getLsbD_setWidth, hlt, hnot,
    decide_true, decide_false, Bool.not_false, Bool.true_and, Nat.add_sub_cancel_left, hi32]
  rw [Bool.or_right_comm, hkr]
  simp [BitVec.getLsbD_eq_getElem hi]

theorem extract_other {p q m : Nat} (h : q + m ≤ p ∨ p + n ≤ q) :
    (k ||| f.setWidth 32 <<< p ||| r).extractLsb' q m = (k ||| r).extractLsb' q m := by
  ext i hi
  have hout : (f.setWidth 32 <<< p).getLsbD (q + i) = false := by
    rw [BitVec.getLsbD_shiftLeft, BitVec.getLsbD_setWidth]
    rcases h with h | h
    · rw [decide_eq_true (show q + i < p by omega)]
      simp
    · rw [BitVec.getLsbD_of_ge f _ (by omega)]
      simp
  simp only [BitVec.getElem_extractLsb', BitVec.getLsbD_or, hout, Bool.or_false]

/-- The fields of an instruction with a 12-bit constant. -/
theorem imm12_fields {w op rest : BitVec 32} {imm : BitVec 12} (hw : w = op ||| imm.setWidth 32 <<< 10 ||| rest)
    (h : imm12 (op ||| rest) = 0) :
    w.extractLsb' 22 10 = (op ||| rest).extractLsb' 22 10 ∧ rn w = rn (op ||| rest) ∧ rd w = rd (op ||| rest) ∧
      imm12 w = imm := by
  subst hw
  exact ⟨extract_other _ _ imm (.inr (by decide)), extract_other _ _ imm (.inl (by decide)),
    extract_other _ _ imm (.inl (by decide)), extract_field _ _ imm (by decide) h⟩

end Fields

/-! ## Constants -/

/-- The low `s` parts of 16 bits. -/
def lowParts (a : BitVec 64) (s : Nat) : BitVec 64 := (a.extractLsb' 0 (16 * s)).setWidth 64

def part (a : BitVec 64) (s : Nat) : BitVec 16 := (a >>> (16 * s)).setWidth 16

theorem lowParts_getLsbD (a : BitVec 64) (s i : Nat) (hi : i < 64) :
    (lowParts a s).getLsbD i = (decide (i < 16 * s) && a.getLsbD i) := by
  simp [lowParts, BitVec.getLsbD_extractLsb', hi]

theorem part_getLsbD (a : BitVec 64) (s i : Nat) : (part a s).getLsbD i = (decide (i < 16) && a.getLsbD (16 * s + i)) := by
  simp [part, BitVec.getLsbD_setWidth]

theorem lowParts_all (a : BitVec 64) : lowParts a 4 = a := by
  apply BitVec.eq_of_getLsbD_eq
  intro i hi
  rw [lowParts_getLsbD _ _ _ hi, decide_eq_true (show i < 16 * 4 from hi), Bool.true_and]

theorem lowParts_zero (a : BitVec 64) : lowParts a 0 = 0 := by
  apply BitVec.eq_of_getLsbD_eq
  intro i hi
  rw [lowParts_getLsbD _ _ _ hi, decide_eq_false (show ¬ i < 16 * 0 by omega), Bool.false_and]
  simp

theorem part_shift_getLsbD (a : BitVec 64) (s i : Nat) (hi : i < 64) :
    ((part a s).setWidth 64 <<< (16 * s)).getLsbD i = (decide (16 * s ≤ i ∧ i < 16 * (s + 1)) && a.getLsbD i) := by
  rw [BitVec.getLsbD_shiftLeft, BitVec.getLsbD_setWidth, part_getLsbD]
  by_cases h : 16 * s ≤ i
  · have hsub : 16 * s + (i - 16 * s) = i := by omega
    have hsame : decide (i - 16 * s < 16) = decide (16 * s ≤ i ∧ i < 16 * (s + 1)) := decide_eq_decide.2 (by omega)
    have hlt : i - 16 * s < 64 := by omega
    have hnot : ¬ i < 16 * s := by omega
    rw [hsub, hsame, decide_eq_true hi, decide_eq_false hnot, decide_eq_true hlt]
    rfl
  · have hlt : i < 16 * s := by omega
    have hout : ¬ (16 * s ≤ i ∧ i < 16 * (s + 1)) := fun hc => h hc.1
    rw [decide_eq_true hlt, decide_eq_false hout]
    simp

theorem lowParts_succ (a : BitVec 64) (s : Nat) :
    lowParts a (s + 1) = lowParts a s ||| (part a s).setWidth 64 <<< (16 * s) := by
  apply BitVec.eq_of_getLsbD_eq
  intro i hi
  rw [BitVec.getLsbD_or, lowParts_getLsbD _ _ _ hi, lowParts_getLsbD _ _ _ hi, part_shift_getLsbD _ _ _ hi,
    ← Bool.and_or_distrib_right, ← Bool.decide_or]
  congr 1
  exact decide_eq_decide.2 (by omega)

theorem insert16_lowParts (a : BitVec 64) (hw : BitVec 2) :
    insert16 (lowParts a hw.toNat) hw (part a hw.toNat) = lowParts a (hw.toNat + 1) := by
  have hkept : lowParts a hw.toNat &&& ~~~((0xFFFF : BitVec 64) <<< (16 * hw.toNat)) = lowParts a hw.toNat := by
    apply BitVec.eq_of_getLsbD_eq
    intro i hi
    rw [BitVec.getLsbD_and, lowParts_getLsbD _ _ _ hi, BitVec.getLsbD_not, BitVec.getLsbD_shiftLeft, decide_eq_true hi]
    by_cases h : i < 16 * hw.toNat
    · rw [decide_eq_true h]
      simp
    · rw [decide_eq_false h, Bool.false_and, Bool.false_and]
  rw [lowParts_succ, insert16, hkept]

end A64
