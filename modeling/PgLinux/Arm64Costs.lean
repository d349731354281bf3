import PgLinux.Arm64Words
/-!
# Arm64Costs — how many words an instruction takes (`rv64_jit.c`)

The tables say which instructions are compiled and how many words each takes, from the instruction, its address and the
addresses of the helpers alone; a compiler that gives up may have emitted a few.
-/
namespace PgLinux
namespace Arm64

variable {α β : Type}

/-! ## The words of an instruction -/

def opCompiles (rd : BitVec 5) (f3 : BitVec 3) (f7 : BitVec 7) : Bool :=
  if rd = 0 then true
  else if f7 = 1 then
    match f3.toNat with
    | 0 | 1 | 3 => true
    | _ => false
  else
    match f3.toNat with
    | 0 | 5 => f7 == 0 || f7 == 0x20
    | _ => true

def opWords (rd : BitVec 5) (f3 : BitVec 3) (f7 : BitVec 7) : Nat :=
  if rd = 0 then 0
  else if f7 = 1 then
    match f3.toNat with
    | 0 | 1 | 3 => 4
    | 4 => 3
    | _ => 2
  else
    match f3.toNat with
    | 0 | 5 => if f7 = 0 ∨ f7 = 0x20 then 4 else 2
    | 2 | 3 => 5
    | _ => 4

def opImmWords (insn : U32) (rd : BitVec 5) (f3 : BitVec 3) : Nat :=
  if rd = 0 then 0
  else
    match f3.toNat with
    | 0 => 3
    | 1 | 5 => if shamt6 insn = 0 then 2 else 3
    | 2 | 3 => movWords (immI insn) + 4
    | 4 => if immI insn = ~~~0 then 3 else movWords (immI insn) + 3
    | _ => movWords (immI insn) + 3

def op32Compiles (rd : BitVec 5) (f3 : BitVec 3) (f7 : BitVec 7) : Bool :=
  if rd = 0 then true
  else if f7 = 1 then f3 == 0
  else
    match f3.toNat with
    | 0 | 5 => f7 == 0 || f7 == 0x20
    | 1 => true
    | _ => false

def op32Words (rd : BitVec 5) (f3 : BitVec 3) (f7 : BitVec 7) : Nat :=
  if rd = 0 then 0 else if op32Compiles rd f3 f7 then 5 else 2

def opImm32Compiles (rd : BitVec 5) (f3 : BitVec 3) : Bool :=
  if rd = 0 then true
  else
    match f3.toNat with
    | 0 | 1 | 5 => true
    | _ => false

def opImm32Words (insn : U32) (rd : BitVec 5) (f3 : BitVec 3) : Nat :=
  if rd = 0 then 0
  else
    match f3.toNat with
    | 0 => 4
    | 1 | 5 => if shamt5 insn = 0 then 3 else 4
    | _ => 1

/-- A constant written to `rd`. -/
def constWords (rd : BitVec 5) (imm : U64) : Nat := if rd = 0 then 0 else movWords imm + 1

def jumpWords (rd : BitVec 5) (pc size target : U64) : Nat := constWords rd (pc + size) + movWords target + 1

def jalrWords (rd : BitVec 5) (pc size : U64) : Nat := constWords rd (pc + size) + 8

def pageCheckWords (size : Nat) : Nat := if 1 < size then 4 else 0

def loadInsnWords (h : Helpers) (rd : BitVec 5) (f3 : BitVec 3) (pc : U64) : Nat :=
  match loadSize f3 with
  | none => 0
  | some (size, doSext) => movWords pc + movWords h.fn_load + 22 + pageCheckWords size + (if doSext then 1 else 0) +
    if rd = 0 then 0 else 1

def storeInsnWords (h : Helpers) (f3 : BitVec 3) (pc : U64) : Nat :=
  match storeSize f3 with
  | none => 0
  | some size => movWords pc + movWords h.fn_store + 24 + pageCheckWords size

def branchWords (insn : U32) (pc size : U64) : Nat :=
  match branchCond (funct3 insn) with
  | none => 3
  | some _ => movWords (pc + size) + movWords (pc + immB insn) + 8

/-- An instruction as the compiler sees it: expanded, with its address and size. -/
structure GuestInsn where
  pc : U64
  insn : U32
  size : U64

/-- The words the compiler of an instruction emits, also when it gives up. -/
def insnWords (h : Helpers) (t : GuestInsn) : Nat :=
  match (opcode t.insn).toNat with
  | 0x33 => opWords (rd t.insn) (funct3 t.insn) (funct7 t.insn)
  | 0x13 => opImmWords t.insn (rd t.insn) (funct3 t.insn)
  | 0x3B => op32Words (rd t.insn) (funct3 t.insn) (funct7 t.insn)
  | 0x1B => opImm32Words t.insn (rd t.insn) (funct3 t.insn)
  | 0x37 => constWords (rd t.insn) (immU t.insn)
  | 0x17 => constWords (rd t.insn) (t.pc + immU t.insn)
  | 0x03 => loadInsnWords h (rd t.insn) (funct3 t.insn) t.pc
  | 0x23 => storeInsnWords h (funct3 t.insn) t.pc
  | 0x6F => jumpWords (rd t.insn) t.pc t.size (t.pc + immJ t.insn)
  | 0x67 => jalrWords (rd t.insn) t.pc t.size
  | _ => 0

/-! ## Code of a fixed length -/

/-- `m` appends `n` words and answers `a`. -/
def Sized (m : Emit α) (a : α) (n : Nat) : Prop := ∃ ws, ws.length = n ∧ Emits m ws a

theorem Emits.sized {m : Emit α} {ws : List U32} {a : α} (h : Emits m ws a) : Sized m a ws.length := ⟨ws, rfl, h⟩

theorem sized_pure (a : α) : Sized (pure a) a 0 := (emits_pure a).sized

theorem sized_emit (w : U32) : Sized (emit w) () 1 := (emits_emit w).sized

theorem Sized.bind {m : Emit α} {f : α → Emit β} {a : α} {b : β} {n k : Nat} (hm : Sized m a n) (hf : Sized (f a) b k) :
    Sized (m >>= f) b (n + k) := by
  obtain ⟨ws, rfl, hws⟩ := hm
  obtain ⟨vs, rfl, hvs⟩ := hf
  exact ⟨ws ++ vs, List.length_append, hws.bind hvs⟩

theorem Sized.congr {m : Emit α} {a b : α} {n k : Nat} (h : Sized m a n) (ha : a = b) (hn : n = k) : Sized m b k :=
  ha ▸ hn ▸ h

theorem sized_mov (rd : U32) (imm : U64) : Sized (emitMovImm64 rd imm) () (movWords imm) :=
  ⟨_, movImm_length rd imm, emits_movImm64 rd imm⟩

theorem sized_loadGuest (armRd : U32) (guestRs : BitVec 5) : Sized (emitLoadGuest armRd guestRs) () 1 :=
  ⟨_, loadGuest_length armRd guestRs, emits_loadGuest armRd guestRs⟩

theorem sized_storeGuest {armRs : U32} {guestRd : BitVec 5} (h : guestRd ≠ 0) : Sized (emitStoreGuest armRs guestRd) () 1 :=
  ⟨_, (storeGuest_length armRs guestRd).trans (if_neg h), emits_storeGuest armRs guestRd⟩

theorem sized_opM (f3 : BitVec 3) :
    Sized (jitOpM f3) (match f3.toNat with | 0 | 1 | 3 => true | _ => false)
      (match f3.toNat with | 0 | 1 | 3 | 4 => 1 | _ => 0) := by
  rcases funct3_cases f3 with rfl | rfl | rfl | rfl | rfl | rfl | rfl | rfl
  · exact ⟨[_], rfl, fun _ => rfl⟩
  · exact ⟨[_], rfl, fun _ => rfl⟩
  · exact ⟨[], rfl, fun _ => rfl⟩
  · exact ⟨[_], rfl, fun _ => rfl⟩
  · exact ⟨[_], rfl, fun _ => rfl⟩
  · exact ⟨[], rfl, fun _ => rfl⟩
  · exact ⟨[], rfl, fun _ => rfl⟩
  · exact ⟨[], rfl, fun _ => rfl⟩

theorem sized_opBase (f3 : BitVec 3) (f7 : BitVec 7) :
    Sized (jitOpBase f3 f7) (match f3.toNat with | 0 | 5 => f7 == 0 || f7 == 0x20 | _ => true)
      (match f3.toNat with | 0 | 5 => if f7 = 0 ∨ f7 = 0x20 then 1 else 0 | 2 | 3 => 2 | _ => 1) := by
  have hsub : ∀ w v : U32, Sized
      (if f7 = 0 then do emit w; return true else if f7 = 0x20 then do emit v; return true else return false)
      (f7 == 0 || f7 == 0x20) (if f7 = 0 ∨ f7 = 0x20 then 1 else 0) := by
    intro w v
    by_cases h0 : f7 = 0
    · subst h0
      exact ⟨[_], rfl, fun _ => rfl⟩
    · by_cases h1 : f7 = 0x20
      · subst h1
        exact ⟨[_], rfl, fun _ => rfl⟩
      · rw [if_neg h0, if_neg h1, if_neg (not_or.2 ⟨h0, h1⟩), beq_false_of_ne h0, beq_false_of_ne h1]
        exact sized_pure false
  rcases funct3_cases f3 with rfl | rfl | rfl | rfl | rfl | rfl | rfl | rfl
  · exact hsub _ _
  · exact ⟨[_], rfl, fun _ => rfl⟩
  · exact ⟨[_, _], rfl, fun _ => rfl⟩
  · exact ⟨[_, _], rfl, fun _ => rfl⟩
  · exact ⟨[_], rfl, fun _ => rfl⟩
  · exact hsub _ _
  · exact ⟨[_], rfl, fun _ => rfl⟩
  · exact ⟨[_], rfl, fun _ => rfl⟩

/-- What follows the arithmetic, when it could be compiled. -/
theorem Sized.thenStore {m : Emit Bool} {ok : Bool} {n k : Nat} {store : Emit Unit} (hm : Sized m ok n)
    (hstore : Sized store () k) :
    Sized (do if ← m then do store; return true else return false) ok (n + if ok then k else 0) := by
  cases ok with
  | false => exact hm.bind (sized_pure false)
  | true =>
    have hthen : Sized (do store; return true) true k := (hstore.bind (sized_pure true)).congr rfl rfl
    exact hm.bind hthen

theorem sized_op (rd rs1 rs2 : BitVec 5) (f3 : BitVec 3) (f7 : BitVec 7) :
    Sized (jitOp rd rs1 rs2 f3 f7) (opCompiles rd f3 f7) (opWords rd f3 f7) := by
  unfold jitOp opCompiles opWords
  by_cases hrd : rd = 0
  · rw [if_pos hrd, if_pos hrd, if_pos hrd]
    exact sized_pure true
  · rw [if_neg hrd, if_neg hrd, if_neg hrd]
    by_cases h7 : f7 = 1
    · rw [if_pos h7, if_pos h7, if_pos h7]
      refine Sized.congr ((sized_loadGuest 0 rs1).bind <| (sized_loadGuest 1 rs2).bind <|
        (sized_opM f3).thenStore (sized_storeGuest hrd)) rfl ?_
      rcases funct3_cases f3 with rfl | rfl | rfl | rfl | rfl | rfl | rfl | rfl <;> rfl
    · rw [if_neg h7, if_neg h7, if_neg h7]
      refine Sized.congr ((sized_loadGuest 0 rs1).bind <| (sized_loadGuest 1 rs2).bind <|
        (sized_opBase f3 f7).thenStore (sized_storeGuest hrd)) rfl ?_
      have hsub : 1 + (1 + ((if f7 = 0 ∨ f7 = 0x20 then 1 else 0) + if (f7 == 0 || f7 == 0x20) = true then 1 else 0)) =
          if f7 = 0 ∨ f7 = 0x20 then 4 else 2 := by
        by_cases hf : f7 = 0 ∨ f7 = 0x20
        · rw [if_pos hf, if_pos hf, if_pos (by simpa using hf)]
        · rw [if_neg hf, if_neg hf, if_neg (by simpa using hf)]
      rcases funct3_cases f3 with rfl | rfl | rfl | rfl | rfl | rfl | rfl | rfl
      all_goals first | exact hsub | rfl

theorem setWidth_imm12 (v : BitVec 12) : ((v.signExtend 64).setWidth 32).toInt = v.toInt := by
  have hwide : (v.signExtend 64).setWidth 32 = v.signExtend 32 := by
    ext i hi
    simp only [BitVec.getElem_setWidth, BitVec.getLsbD_signExtend, BitVec.getElem_signExtend]
    split <;> simp [*] <;> omega
  rw [hwide, BitVec.toInt_signExtend_of_le (by decide)]

theorem sized_addWSimm (rd rn : U32) (v : BitVec 12) :
    Sized (emitAddWSimm rd rn ((v.signExtend 64).setWidth 32)) () 1 := by
  have hlt : v.toInt < 2 ^ (12 - 1) := BitVec.toInt_lt
  have hle : -2 ^ (12 - 1) ≤ v.toInt := BitVec.le_toInt v
  have himm := setWidth_imm12 v
  unfold emitAddWSimm
  by_cases h : 0 ≤ v.toInt
  · rw [if_pos (by omega)]
    exact sized_emit _
  · rw [if_neg (by omega), if_pos (by omega)]
    exact sized_emit _

/-- A shift by a constant, left out when the constant is 0. -/
theorem sized_shift (shamt : U32) (w : U32) : Sized (do if shamt ≠ 0 then emit w) () (if shamt = 0 then 0 else 1) := by
  by_cases h : shamt = 0
  · rw [if_pos h, if_neg (not_not.2 h)]
    exact sized_pure ()
  · rw [if_neg h, if_pos h]
    exact sized_emit w

theorem sized_shift_right (insn shamt : U32) (w v : U32) :
    Sized (do if shamt ≠ 0 then if insn.getLsbD 30 then emit w else emit v) () (if shamt = 0 then 0 else 1) := by
  by_cases h : shamt = 0
  · rw [if_pos h, if_neg (not_not.2 h)]
    exact sized_pure ()
  · rw [if_neg h, if_pos h]
    split <;> exact sized_emit _

theorem sized_opImm (insn : U32) (rd rs1 : BitVec 5) (f3 : BitVec 3) :
    Sized (jitOpImm insn rd rs1 f3) true (opImmWords insn rd f3) := by
  unfold jitOpImm opImmWords
  by_cases hrd : rd = 0
  · rw [if_pos hrd, if_pos hrd]
    exact sized_pure true
  · rw [if_neg hrd, if_neg hrd]
    have hpair : ∀ w v : U32, Sized (do emitMovImm64 1 (immI insn); emit w; emit v) () (movWords (immI insn) + 2) :=
      fun w v => ((sized_mov 1 _).bind ((sized_emit w).bind (sized_emit v))).congr rfl (by rfl)
    have hone : ∀ w : U32, Sized (do emitMovImm64 1 (immI insn); emit w) () (movWords (immI insn) + 1) :=
      fun w => (sized_mov 1 _).bind (sized_emit w)
    have hthen : ∀ {n k : Nat}, Sized (emitOpImm insn f3) () n → n + 2 = k →
        Sized (do emitLoadGuest 0 rs1; emitOpImm insn f3; emitStoreGuest 0 rd; return true) true k := by
      intro n k h hk
      exact ((sized_loadGuest 0 rs1).bind (h.bind ((sized_storeGuest hrd).bind (sized_pure true)))).congr rfl (by omega)
    rcases funct3_cases f3 with rfl | rfl | rfl | rfl | rfl | rfl | rfl | rfl
    · exact hthen (emits_addSimm 0 0 _).sized rfl
    · refine hthen (sized_shift _ _) ?_
      show _ = if shamt6 insn = 0 then 2 else 3
      split <;> rfl
    · exact hthen (hpair _ _) rfl
    · exact hthen (hpair _ _) rfl
    · show Sized _ _ (if immI insn = ~~~0 then 3 else movWords (immI insn) + 3)
      by_cases hall : immI insn = ~~~0
      · rw [if_pos hall]
        refine hthen ?_ rfl
        show Sized (if immI insn = ~~~0 then _ else _) () 1
        rw [if_pos hall]
        exact sized_emit _
      · rw [if_neg hall]
        refine hthen ?_ rfl
        show Sized (if immI insn = ~~~0 then _ else _) () (movWords (immI insn) + 1)
        rw [if_neg hall]
        exact hone _
    · refine hthen (sized_shift_right _ _ _ _) ?_
      show _ = if shamt6 insn = 0 then 2 else 3
      split <;> rfl
    · exact hthen (hone _) rfl
    · exact hthen (hone _) rfl

theorem sized_op32Body (f3 : BitVec 3) (f7 : BitVec 7) {rd : BitVec 5} (hrd : rd ≠ 0) :
    Sized (emitOp32 f3 f7) (op32Compiles rd f3 f7) (if op32Compiles rd f3 f7 then 1 else 0) := by
  have hsub : ∀ w v : U32, Sized
      (if f7 = 0 then do emit w; return true else if f7 = 0x20 then do emit v; return true else return false)
      (f7 == 0 || f7 == 0x20) (if (f7 == 0 || f7 == 0x20) then 1 else 0) := by
    intro w v
    by_cases h0 : f7 = 0
    · subst h0
      exact ⟨[_], rfl, fun _ => rfl⟩
    · by_cases h1 : f7 = 0x20
      · subst h1
        exact ⟨[_], rfl, fun _ => rfl⟩
      · rw [if_neg h0, if_neg h1, beq_false_of_ne h0, beq_false_of_ne h1]
        exact sized_pure false
  unfold emitOp32 op32Compiles
  rw [if_neg hrd]
  by_cases h7 : f7 = 1
  · rw [if_pos h7, if_pos h7]
    by_cases h3 : f3 = 0
    · subst h3
      exact ⟨[_], rfl, fun _ => rfl⟩
    · rw [if_neg h3, beq_false_of_ne h3]
      exact sized_pure false
  · rw [if_neg h7, if_neg h7]
    rcases funct3_cases f3 with rfl | rfl | rfl | rfl | rfl | rfl | rfl | rfl
    · exact hsub _ _
    · exact ⟨[_], rfl, fun _ => rfl⟩
    · exact sized_pure false
    · exact sized_pure false
    · exact sized_pure false
    · exact hsub _ _
    · exact sized_pure false
    · exact sized_pure false

/-- Sign extension and the store, when the 32-bit operation could be compiled. -/
theorem Sized.thenExtend {m : Emit Bool} {ok : Bool} {n : Nat} {rd : BitVec 5} (hm : Sized m ok n) (hrd : rd ≠ 0) :
    Sized (do if ← m then do emitSxtw 0 0; emitStoreGuest 0 rd; return true else return false) ok
      (n + if ok then 2 else 0) := by
  cases ok with
  | false => exact hm.bind (sized_pure false)
  | true =>
    have hthen : Sized (do emitSxtw 0 0; emitStoreGuest 0 rd; return true) true 2 :=
      ((sized_emit _).bind ((sized_storeGuest hrd).bind (sized_pure true))).congr rfl (by rfl)
    exact hm.bind hthen

theorem sized_op32 (rd rs1 rs2 : BitVec 5) (f3 : BitVec 3) (f7 : BitVec 7) :
    Sized (jitOp32 rd rs1 rs2 f3 f7) (op32Compiles rd f3 f7) (op32Words rd f3 f7) := by
  unfold jitOp32 op32Words
  by_cases hrd : rd = 0
  · rw [if_pos hrd, if_pos hrd, op32Compiles, if_pos hrd]
    exact sized_pure true
  · rw [if_neg hrd, if_neg hrd]
    refine Sized.congr ((sized_loadGuest 0 rs1).bind <| (sized_loadGuest 1 rs2).bind <|
      (sized_op32Body f3 f7 hrd).thenExtend hrd) rfl ?_
    cases op32Compiles rd f3 f7 <;> rfl

theorem sized_opImm32 (insn : U32) (rd rs1 : BitVec 5) (f3 : BitVec 3) :
    Sized (jitOpImm32 insn rd rs1 f3) (opImm32Compiles rd f3) (opImm32Words insn rd f3) := by
  unfold jitOpImm32 opImm32Compiles opImm32Words
  by_cases hrd : rd = 0
  · rw [if_pos hrd, if_pos hrd, if_pos hrd]
    exact sized_pure true
  · rw [if_neg hrd, if_neg hrd, if_neg hrd]
    have hall : ∀ {ok : Bool} {n k : Nat}, Sized (emitOpImm32 insn f3) ok n → 1 + (n + if ok then 2 else 0) = k →
        Sized (do
          emitLoadGuest 0 rs1
          if ← emitOpImm32 insn f3 then do emitSxtw 0 0; emitStoreGuest 0 rd; return true else return false) ok k := by
      intro ok n k h hk
      exact ((sized_loadGuest 0 rs1).bind (h.thenExtend hrd)).congr rfl hk
    have hshift : (1 + ((if shamt5 insn = 0 then 0 else 1) + 2)) = if shamt5 insn = 0 then 3 else 4 := by split <;> rfl
    rcases funct3_cases f3 with rfl | rfl | rfl | rfl | rfl | rfl | rfl | rfl
    · exact hall (((sized_addWSimm 0 0 _).bind (sized_pure true)).congr rfl rfl) rfl
    · refine hall (n := if shamt5 insn = 0 then 0 else 1) ?_ hshift
      show Sized (if shamt5 insn ≠ 0 then _ else _) true _
      by_cases h : shamt5 insn = 0
      · rw [if_pos h, if_neg (not_not.2 h)]
        exact sized_pure true
      · rw [if_neg h, if_pos h]
        exact ((sized_emit _).bind (sized_pure true)).congr rfl rfl
    · exact hall (sized_pure false) rfl
    · exact hall (sized_pure false) rfl
    · exact hall (sized_pure false) rfl
    · refine hall (n := if shamt5 insn = 0 then 0 else 1) ?_ hshift
      show Sized (if shamt5 insn ≠ 0 then _ else _) true _
      by_cases h : shamt5 insn = 0
      · rw [if_pos h, if_neg (not_not.2 h)]
        exact sized_pure true
      · rw [if_neg h, if_pos h]
        split <;> exact ((sized_emit _).bind (sized_pure true)).congr rfl rfl
    · exact hall (sized_pure false) rfl
    · exact hall (sized_pure false) rfl

/-! ## Constants and jumps -/

theorem sized_constTo (rd : BitVec 5) (imm : U64) :
    Sized (if rd = 0 then return true else do emitMovImm64 0 imm; emitStoreGuest 0 rd; return true) true
      (constWords rd imm) := by
  unfold constWords
  by_cases hrd : rd = 0
  · rw [if_pos hrd, if_pos hrd]
    exact sized_pure true
  · rw [if_neg hrd, if_neg hrd]
    exact ((sized_mov 0 imm).bind ((sized_storeGuest hrd).bind (sized_pure true))).congr rfl (by rfl)

theorem sized_fence (insn : U32) : Sized (jitFence insn) (decide (funct3 insn ≠ 1)) 0 := sized_pure _

/-- The next pc of a jump. -/
theorem sized_setPc (target : U64) :
    Sized (do emitMovImm64 0 target; emitStrX 0 cpuReg offPc; return true) true (movWords target + 1) :=
  ((sized_mov 0 target).bind ((sized_emit _).bind (sized_pure true))).congr rfl (by rfl)

theorem sized_jal (insn : U32) (rd : BitVec 5) (pc size : U64) :
    Sized (jitJal insn rd pc size) true (jumpWords rd pc size (pc + immJ insn)) := by
  unfold jitJal jumpWords constWords
  by_cases hrd : rd = 0
  · rw [if_pos hrd, if_neg (not_not.2 hrd)]
    exact (sized_setPc _).congr rfl (by omega)
  · rw [if_neg hrd, if_pos hrd]
    exact ((sized_mov 0 _).bind ((sized_storeGuest hrd).bind (sized_setPc _))).congr rfl (by omega)

theorem sized_jalr (insn : U32) (rd rs1 : BitVec 5) (pc size : U64) :
    Sized (jitJalr insn rd rs1 pc size) true (jalrWords rd pc size) := by
  have hmask : movWords (~~~1) = 4 := by decide
  have hjump : ∀ {after : Emit Bool} {n : Nat}, Sized after true n → Sized (do
      emitLoadGuest 0 rs1
      emitAddSimm 0 0 (immI insn)
      emitMovImm64 1 (~~~1)
      emit 0x8A010000
      emitStrX 0 cpuReg offPc
      after) true (8 + n) := by
    intro after n h
    refine ((sized_loadGuest 0 rs1).bind ((emits_addSimm 0 0 _).sized.bind ((sized_mov 1 _).bind
      ((sized_emit _).bind ((sized_emit _).bind h))))).congr rfl ?_
    rw [hmask]
    simp only [List.length_cons, List.length_nil]
    omega
  unfold jitJalr jalrWords constWords
  by_cases hrd : rd = 0
  · rw [if_pos hrd, if_neg (not_not.2 hrd), if_neg (not_not.2 hrd)]
    exact (hjump (sized_pure true)).congr rfl (by omega)
  · rw [if_neg hrd, if_pos hrd, if_pos hrd]
    have hlink : Sized (do emitStoreGuest 2 rd; return true) true 1 :=
      ((sized_storeGuest hrd).bind (sized_pure true)).congr rfl rfl
    have hlast := (sized_mov 2 (pc + size)).bind (f := fun _ => _) (hjump hlink)
    exact hlast.congr rfl (by omega)

/-! ## What a run of the compiler writes -/

/-- From `j` to `j'` the compiler called `emit` `n` times; with room all the words landed. -/
structure Wrote (n : Nat) (j j' : CodeBuf) : Prop where
  calls : j'.calls = j.calls + n
  capacity : j'.code_capacity = j.code_capacity
  fits : j'.code_off ≤ j.code_capacity
  off : j.code_off + n ≤ j.code_capacity → j'.code_off = j.code_off + n
  kept : j.code_off + n ≤ j.code_capacity → j'.dropped = j.dropped ∧ j'.outside = j.outside

theorem Wrote.trans {n k : Nat} {j j' j'' : CodeBuf} (h : Wrote n j j') (h' : Wrote k j' j'') : Wrote (n + k) j j'' := by
  obtain ⟨hcalls, hcap, hfits, hoff, hkept⟩ := h
  obtain ⟨hcalls', hcap', hfits', hoff', hkept'⟩ := h'
  rw [hcap] at hcap' hfits' hoff' hkept'
  refine ⟨by omega, hcap', hfits', fun hroom => ?_, fun hroom => ?_⟩
  · have := hoff (by omega)
    have := hoff' (by omega)
    omega
  · have hj' := hoff (by omega)
    obtain ⟨hd, ho⟩ := hkept (by omega)
    obtain ⟨hd', ho'⟩ := hkept' (by omega)
    exact ⟨hd'.trans hd, ho'.trans ho⟩

/-- `m` writes `n` words in a buffer of capacity `cap`, and its answer is as `R` says. -/
def Writes (cap : Nat) (m : Emit α) (n : Nat) (R : α → Prop) : Prop :=
  ∀ j, j.code_capacity = cap → j.code_off ≤ cap → Wrote n j (m j).2 ∧ R (m j).1

variable {cap : Nat} {R : α → Prop} {S : β → Prop}

theorem Writes.bind {m : Emit α} {f : α → Emit β} {n k : Nat} (hm : Writes cap m n R)
    (hf : ∀ a, R a → Writes cap (f a) k S) : Writes cap (m >>= f) (n + k) S := by
  intro j hcap hfits
  obtain ⟨hw, hR⟩ := hm j hcap hfits
  obtain ⟨hw', hS⟩ := hf _ hR (m j).2 (hw.capacity.trans hcap) (hcap ▸ hw.fits)
  exact ⟨hw.trans hw', hS⟩

theorem Writes.congr {m : Emit α} {n k : Nat} (h : Writes cap m n R) (e : n = k) : Writes cap m k R := e ▸ h

theorem Writes.mono {m : Emit α} {n : Nat} {R' : α → Prop} (h : Writes cap m n R) (hR : ∀ a, R a → R' a) :
    Writes cap m n R' := fun j hcap hfits => ⟨(h j hcap hfits).1, hR _ (h j hcap hfits).2⟩

theorem writes_pure {a : α} (h : R a) : Writes cap (pure a) 0 R := fun _ hcap hfits =>
  ⟨⟨rfl, rfl, hcap ▸ hfits, fun _ => rfl, fun _ => ⟨rfl, rfl⟩⟩, h⟩

/-- Code followed exactly where there is room. -/
theorem writes_of_lays {m : Emit α} {n : Nat} (hcalls : Calls m n) (hR : ∀ j, R (m j).1)
    (h : ∀ o, ∃ a vs, vs.length = n ∧ Lays o [] m a vs) : Writes cap m n R := by
  intro j hcap hfits
  obtain ⟨hn, hc, hf⟩ := hcalls j
  have hlaid : j.code_off + n ≤ j.code_capacity → (m j).2.code_off = j.code_off + n ∧
      (m j).2.dropped = j.dropped ∧ (m j).2.outside = j.outside := by
    intro hroom
    obtain ⟨a, vs, rfl, hl⟩ := h j.code_off
    obtain ⟨-, ⟨-, hbuf⟩, -, hdropped, houtside⟩ := hl.run j j.code_buf ⟨rfl, (List.append_nil _).symm⟩ hroom
    refine ⟨?_, hdropped, houtside⟩
    show (m j).2.code_buf.length = _
    rw [hbuf, List.length_append]
    rfl
  exact ⟨⟨hn, hc, hf (hcap ▸ hfits), fun hroom => (hlaid hroom).1, fun hroom => (hlaid hroom).2⟩, hR j⟩

theorem Sized.writes {m : Emit α} {a : α} {n : Nat} (h : Sized m a n) : Writes cap m n (· = a) := by
  obtain ⟨ws, rfl, hws⟩ := h
  exact writes_of_lays hws.calls (fun j => by rw [hws j]) fun o => ⟨a, ws, rfl, hws.lays⟩

theorem fixupResult_bit (off : Nat) : (fixupResult off).getLsbD 0 = true := by
  simp [fixupResult]

theorem sized_address (pc : U64) (v : BitVec 12) (rs1 : BitVec 5) :
    Sized (emitAddress pc (v.signExtend 64) rs1) () (movWords pc + 3) :=
  ⟨_, addressWords_length pc v rs1, emits_address pc v rs1⟩

theorem writes_load (h : Helpers) (insn : U32) (rd rs1 : BitVec 5) (f3 : BitVec 3) (pc : U64) :
    Writes cap (jitLoad h insn rd rs1 f3 pc) (loadInsnWords h rd f3 pc)
      fun result => result.getLsbD 0 = (loadSize f3).isSome := by
  unfold jitLoad loadInsnWords
  cases loadSize f3 with
  | none => exact writes_pure (by rfl)
  | some kind =>
    obtain ⟨size, doSext⟩ := kind
    have haccess : Writes cap (emitLoadAccess h rd size doSext) (loadWords 0 h rd size doSext).length
        fun result => result.getLsbD 0 = true :=
      writes_of_lays (calls_loadAccess h rd size doSext) (fun j => fixupResult_bit _)
        fun o => ⟨_, _, by simp only [loadWords, List.length_append, loadCallWords_length],
          lays_loadAccess h rd size doSext⟩
    refine ((sized_address pc _ rs1).writes.bind fun _ _ => haccess).congr ?_
    simp only [loadWords, fastPath, List.length_append, fastWords_length, loadCallWords_length, storeGuest_length, slowOff,
      sextWords, pageCheckWords]
    cases doSext <;> simp <;> omega

theorem writes_store (h : Helpers) (insn : U32) (rs1 rs2 : BitVec 5) (f3 : BitVec 3) (pc : U64) :
    Writes cap (jitStore h insn rs1 rs2 f3 pc) (storeInsnWords h f3 pc)
      fun result => result.getLsbD 0 = (storeSize f3).isSome := by
  unfold jitStore storeInsnWords
  cases storeSize f3 with
  | none => exact writes_pure (by rfl)
  | some size =>
    have haccess : Writes cap (emitStoreAccess h size) (storeWords 0 h size).length fun result => result.getLsbD 0 = true :=
      writes_of_lays (calls_storeAccess h size) (fun j => fixupResult_bit _)
        fun o => ⟨_, _, by simp only [storeWords, List.length_append, storeCallWords_length], lays_storeAccess h size⟩
    refine ((sized_address pc _ rs1).writes.bind fun _ _ => (sized_loadGuest 2 rs2).writes.bind fun _ _ => haccess).congr ?_
    simp only [storeWords, fastPath, List.length_append, fastWords_length, storeCallWords_length, slowOff, pageCheckWords,
      if_true]
    omega

end Arm64
end PgLinux
