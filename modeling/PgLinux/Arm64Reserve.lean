import PgLinux.Arm64Block
import PgLinux.Arm64Costs
import PgLinux.FlatGuest
/-!
# Arm64Reserve — the words of a block against the words reserved for it (`rv64_jit.c`)

`max_needed` allows 30 words for an instruction.  What an instruction takes depends on its constants: a load or a store
writes the pc and the address of its helper as constants of up to four words each, and takes up to 36.
-/
namespace PgLinux
namespace Arm64

section Reservation

variable [NetDevice]

/-- Whether an instruction is compiled, ends the block unseen, or is left to the end. -/
def verdict (insn : U32) : Result :=
  match (opcode insn).toNat with
  | 0x33 => ofBool (opCompiles (rd insn) (funct3 insn) (funct7 insn))
  | 0x3B => ofBool (op32Compiles (rd insn) (funct3 insn) (funct7 insn))
  | 0x1B => ofBool (opImm32Compiles (rd insn) (funct3 insn))
  | 0x0F => ofBool (decide (funct3 insn ≠ 1))
  | 0x03 => ofBool (loadSize (funct3 insn)).isSome
  | 0x23 => ofBool (storeSize (funct3 insn)).isSome
  | 0x13 | 0x37 | 0x17 | 0x6F | 0x67 => .compiled
  | 0x63 => .deferred
  | _ => .cannot

/-! ## The words of a block -/

/-- Where a block ends: before an instruction it cannot compile, after a jump, at a branch, or where nothing more is
taken up. -/
inductive Stop where
  | ahead (pc : U64)
  | cannot (t : GuestInsn)
  | jumped
  | branch (pc : U64)

def endsBlock (insn : U32) : Bool :=
  match (opcode insn).toNat with
  | 0x6F | 0x67 => true
  | _ => false

/-- The instructions of the block at `pc`, of at most `n`, and where it ends. -/
def scan : Nat → U64 → Cpu → List GuestInsn × Stop × Cpu
  | 0, pc, c => ([], .ahead pc, c)
  | n + 1, pc, c =>
    match jitFetchInsn pc c with
    | (none, c) => ([], .ahead pc, c)
    | (some (raw, compressed), c) =>
      let t : GuestInsn := ⟨pc, expand raw compressed, insnBytes compressed⟩
      if compressed ∧ t.insn = 0 then ([], .ahead pc, c)
      else
        match verdict t.insn with
        | .deferred => ([], .branch pc, c)
        | .cannot => ([], .cannot t, c)
        | .compiled =>
          if endsBlock t.insn then ([t], .jumped, c)
          else
            let r := scan n (pc + t.size) c
            (t :: r.1, r.2)

def epilogueWords : Nat := 16

/-- The words of an instruction that could not be compiled. -/
def lostWords (h : Helpers) : Stop → Nat
  | .cannot t => insnWords h t
  | _ => 0

/-- The words after the last instruction of a block that has one. -/
def finishWords (c : Cpu) : Stop → Nat
  | .ahead pc => movWords pc + 1 + epilogueWords
  | .cannot t => movWords t.pc + 1 + epilogueWords
  | .jumped => epilogueWords
  | .branch pc =>
    match (jitFetchInsn pc c).1 with
    | none => epilogueWords
    | some (raw, compressed) => 1 + branchWords (expand raw compressed) pc (insnBytes compressed) + epilogueWords

/-- The branch a block ends with counts as an instruction. -/
def Stop.branches : Stop → Nat
  | .branch _ => 1
  | _ => 0

/-- A word for each instruction counts it. -/
def bodyWords (h : Helpers) (insns : List GuestInsn) : Nat := (insns.map fun t => insnWords h t + 1).sum

/-- The words that the block at `pc` takes. -/
def blockWords (h : Helpers) (pc : U64) (c : Cpu) : Nat :=
  let r := scan jitMaxBlockInsns pc c
  4 + (bodyWords h r.1 + lostWords h r.2.1) + if r.1.length + r.2.1.branches = 0 then 0 else finishWords r.2.2 r.2.1

/-- What reserving promises: no more words than `max_needed`, none dropped and none patched outside. -/
def Reserved (h : Helpers) (pc : U64) (c : Cpu) (j : CodeBuf) : Prop :=
  let j' := (jitCompileBlock h pc c j).2
  j'.calls ≤ j.calls + maxNeeded ∧ j'.dropped = j.dropped ∧ j'.outside = j.outside


/-! ## One instruction -/

variable {cap : Nat}

/-- The locals that one instruction leaves alone, and whether it ends the block. -/
structure Followed (k k' : Compile) (ended : Bool) : Prop where
  pc : k'.pc = k.pc
  insn_count : k'.insn_count = k.insn_count
  block_ended : k'.block_ended = (k.block_ended || ended)
  last_opcode : k'.last_opcode = k.last_opcode
  last_pc : k'.last_pc = k.last_pc

omit [NetDevice] in
theorem followed_self (k : Compile) : Followed k k false := ⟨rfl, rfl, (Bool.or_false _).symm, rfl, rfl⟩

omit [NetDevice] in
theorem followed_noteFixup (k : Compile) (result : U32) : Followed k (k.noteFixup result) false := by
  unfold Compile.noteFixup
  split
  · dsimp only
    split
    · exact ⟨rfl, rfl, (Bool.or_false _).symm, rfl, rfl⟩
    · exact followed_self k
  · exact followed_self k

omit [NetDevice] in
theorem writes_plain {m : Emit Bool} {ok : Bool} {n : Nat} {k k' : Compile} {ended : Bool} (h : Sized m ok n)
    (hk : Followed k k' ended) :
    Writes cap (do return (ofBool (← m), k')) n fun r => r.1 = ofBool ok ∧ Followed k r.2 ended :=
  h.writes.bind fun _ ha => writes_pure ⟨congrArg ofBool ha, hk⟩

omit [NetDevice] in
theorem writes_insn (h : Helpers) (k : Compile) (insn : U32) (size : U64) :
    Writes cap (k.insn h insn size) (insnWords h ⟨k.pc, insn, size⟩)
      fun r => r.1 = verdict insn ∧ Followed k r.2 (endsBlock insn || verdict insn == .deferred) := by
  have hends : Followed k { k with block_ended := true } true := ⟨rfl, rfl, (Bool.or_true _).symm, rfl, rfl⟩
  have hok : ∀ ok : Bool, (false || ofBool ok == Result.deferred) = false := by decide
  unfold Compile.insn insnWords verdict endsBlock
  dsimp only
  generalize (opcode insn).toNat = op
  split
  case h_1 => simp only [hok]; exact writes_plain (sized_op ..) (followed_self k)
  case h_2 => exact writes_plain (sized_opImm ..) (followed_self k)
  case h_3 => simp only [hok]; exact writes_plain (sized_op32 ..) (followed_self k)
  case h_4 => simp only [hok]; exact writes_plain (sized_opImm32 ..) (followed_self k)
  case h_5 => exact writes_plain (sized_constTo ..) (followed_self k)
  case h_6 => exact writes_plain (sized_constTo ..) (followed_self k)
  case h_7 => simp only [hok]; exact writes_plain (sized_fence insn) (followed_self k)
  case h_8 =>
    simp only [hok]
    exact (writes_load h insn _ _ _ k.pc).bind fun result hr =>
      writes_pure ⟨congrArg ofBool hr, followed_noteFixup k result⟩
  case h_9 =>
    simp only [hok]
    refine (writes_store h insn _ _ _ k.pc).bind fun result hr => writes_pure ⟨congrArg ofBool hr, ?_⟩
    obtain ⟨h1, h2, h3, h4, h5⟩ := followed_noteFixup k result
    exact ⟨h1, h2, h3, h4, h5⟩
  case h_10 => exact writes_plain (sized_jal ..) hends
  case h_11 => exact writes_plain (sized_jalr ..) hends
  case h_12 => exact writes_pure ⟨rfl, hends⟩
  case h_13 =>
    simp only [*]
    exact writes_pure ⟨rfl, followed_self k⟩

/-! ## The loop -/

/-- The locals where the loop stops, of a block of `count` compiled instructions before a branch. -/
def Reached (k : Compile) (count : Nat) (stop : Stop) : Prop :=
  k.insn_count = count + stop.branches ∧
    match stop with
    | .ahead pc => k.block_ended = false ∧ k.pc = pc
    | .cannot t => k.block_ended = false ∧ k.pc = t.pc
    | .jumped => k.block_ended = true ∧ k.last_opcode ≠ 0x63
    | .branch pc => k.block_ended = true ∧ k.last_opcode = 0x63 ∧ k.last_pc = pc

omit [NetDevice] in
theorem verdict_deferred {insn : U32} (h : verdict insn = .deferred) : opcode insn = 0x63 := by
  have hb : ∀ ok, ofBool ok ≠ Result.deferred := by decide
  unfold verdict at h
  split at h
  case h_12 hop => exact BitVec.eq_of_toNat_eq hop
  all_goals first | exact absurd h (hb _) | cases h

omit [NetDevice] in
theorem endsBlock_opcode {insn : U32} (h : endsBlock insn = true) : opcode insn ≠ 0x63 := by
  intro hop
  rw [endsBlock, hop] at h
  cases h

omit [NetDevice] in
theorem verdict_jump {insn : U32} (h : endsBlock insn = true) : verdict insn = .compiled := by
  unfold endsBlock at h
  unfold verdict
  split at h
  case h_1 hop =>
    rw [hop]
    rfl
  case h_2 hop =>
    rw [hop]
    rfl
  case h_3 => cases h

theorem writes_loop (h : Helpers) : ∀ (n : Nat) (k : Compile) (c : Cpu), k.block_ended = false →
    Writes cap (compileLoop h n k c) (bodyWords h (scan n k.pc c).1 + lostWords h (scan n k.pc c).2.1)
      fun r => r.2 = (scan n k.pc c).2.2 ∧ Reached r.1 (k.insn_count + (scan n k.pc c).1.length) (scan n k.pc c).2.1
  | 0, k, c, hk => writes_pure ⟨rfl, rfl, hk, rfl⟩
  | n + 1, k, c, hk => by
    unfold compileLoop scan
    rcases jitFetchInsn k.pc c with ⟨_ | ⟨raw, compressed⟩, c'⟩
    · exact writes_pure ⟨rfl, rfl, hk, rfl⟩
    · dsimp only
      generalize expand raw compressed = insn
      by_cases h0 : compressed = true ∧ insn = 0
      · rw [if_pos h0, if_pos h0]
        exact writes_pure ⟨rfl, rfl, hk, rfl⟩
      · rw [if_neg h0, if_neg h0]
        have hinsn : Writes cap _ _ _ :=
          writes_insn h { k with last_opcode := opcode insn, last_pc := k.pc } insn (insnBytes compressed)
        cases hv : verdict insn with
        | deferred =>
          have hwords : insnWords h ⟨k.pc, insn, insnBytes compressed⟩ = 0 := by
            unfold insnWords
            rw [verdict_deferred hv]
            rfl
          refine (hinsn.bind (k := 0) fun r hr => ?_).congr hwords
          obtain ⟨res, k'⟩ := r
          obtain ⟨rfl, hf⟩ : res = _ ∧ _ := hr
          have hended : k'.block_ended = true := by
            rw [hf.block_ended, hv]
            exact Bool.or_eq_true_iff.2 (.inr (Bool.or_true _))
          rw [hv]
          exact writes_pure ⟨rfl, congrArg (· + 1) hf.insn_count, hended, hf.last_opcode.trans (verdict_deferred hv), hf.last_pc⟩
        | cannot =>
          refine (hinsn.bind (k := 0) fun r hr => ?_).congr (Nat.zero_add _).symm
          obtain ⟨res, k'⟩ := r
          obtain ⟨rfl, hf⟩ : res = _ ∧ _ := hr
          have hnot : endsBlock insn = false := by
            by_contra he
            cases (verdict_jump (Bool.not_eq_false _ ▸ he)).symm.trans hv
          rw [hv]
          refine writes_pure ⟨rfl, hf.insn_count, ?_, hf.pc⟩
          rw [hf.block_ended, hnot, hv]
          exact congrArg (· || _) hk
        | compiled =>
          have hnot : (Result.compiled == Result.deferred) = false := rfl
          by_cases he : endsBlock insn = true
          · rw [if_pos he]
            refine (hinsn.bind (k := 1 + 0) fun r hr => ?_).congr ?_
            · obtain ⟨res, k'⟩ := r
              obtain ⟨rfl, hf⟩ : res = _ ∧ _ := hr
              have hended : k'.block_ended = true := by
                rw [hf.block_ended, he]
                exact Bool.or_true _
              have hop : k'.last_opcode ≠ 0x63 := hf.last_opcode ▸ endsBlock_opcode he
              rw [hv]
              refine (sized_emit countWord).writes.bind fun _ _ => ?_
              rw [if_pos hended]
              exact writes_pure ⟨rfl, congrArg (· + 1) hf.insn_count, hended, hop⟩
            · rfl
          · rw [if_neg he]
            refine (hinsn.bind (k := 1 + (bodyWords h (scan n (k.pc + insnBytes compressed) c').1 +
              lostWords h (scan n (k.pc + insnBytes compressed) c').2.1)) fun r hr => ?_).congr ?_
            · obtain ⟨res, k'⟩ := r
              obtain ⟨rfl, hf⟩ : res = _ ∧ _ := hr
              have hgoes : k'.block_ended = false := by
                rw [hf.block_ended, eq_false_of_ne_true he, hv, hnot]
                exact (Bool.or_false _).trans hk
              rw [hv]
              refine (sized_emit countWord).writes.bind fun _ _ => ?_
              rw [if_neg (by rw [hgoes]; decide)]
              have hrest := writes_loop h n { k' with insn_count := k'.insn_count + 1, pc := k'.pc + insnBytes compressed } c' hgoes
              have hpc : k'.pc = k.pc := hf.pc
              have hcount : k'.insn_count = k.insn_count := hf.insn_count
              rw [hpc, hcount] at hrest
              rw [hpc, hcount]
              refine hrest.mono fun r hr => ⟨hr.1, ?_⟩
              have hlen : ∀ l : List GuestInsn, k.insn_count + 1 + l.length = k.insn_count + (l.length + 1) := fun l => by omega
              rw [hlen] at hr
              exact hr.2
            · show _ = insnWords h ⟨k.pc, insn, insnBytes compressed⟩ + 1 + bodyWords h (scan n (k.pc + insnBytes compressed) c').1 +
                lostWords h (scan n (k.pc + insnBytes compressed) c').2.1
              dsimp only
              omega

/-! ## The end of a block -/

section Ending

omit [NetDevice]

theorem writes_codeOff : Writes cap codeOff 0 (· ≤ cap) := fun _ hcap hfits =>
  ⟨⟨rfl, rfl, hcap ▸ hfits, fun _ => rfl, fun _ => ⟨rfl, rfl⟩⟩, hfits⟩

theorem writes_get : Writes cap get 0 (·.code_capacity = cap) := fun _ hcap hfits =>
  ⟨⟨rfl, rfl, hcap ▸ hfits, fun _ => rfl, fun _ => ⟨rfl, rfl⟩⟩, hcap⟩

theorem writes_patch {off : Nat} (h : off < cap) (w : U32) : Writes cap (patch off w) 0 fun _ => True := by
  intro j hcap hfits
  have hpatch : j.patch off w = { j with code_buf := j.code_buf.set off w } := if_pos (hcap ▸ h)
  have hlen : (j.code_buf.set off w).length = j.code_off := List.length_set ..
  show Wrote 0 j (j.patch off w) ∧ True
  rw [hpatch]
  exact ⟨⟨rfl, rfl, Nat.le_trans (Nat.le_of_eq hlen) (hcap ▸ hfits), fun _ => hlen, fun _ => ⟨rfl, rfl⟩⟩, trivial⟩

theorem writes_patchJumps (dummyEpi epiOff : Nat) : ∀ (n p : Nat), p + n ≤ cap →
    Writes cap (patchJumps dummyEpi epiOff n p) 0 fun _ => True
  | 0, _, _ => writes_pure trivial
  | n + 1, p, h => by
    have hrest := writes_patchJumps dummyEpi epiOff n (p + 1) (by omega)
    unfold patchJumps
    refine writes_get.bind (k := 0) fun j _ => ?_
    dsimp only
    split
    · exact (writes_patch (by omega) _).bind (k := 0) fun _ _ => hrest
    · exact hrest

theorem writes_patchFixups (epiOff : Nat) : ∀ fixups : List Nat, Writes cap (patchFixups epiOff fixups) 0 fun _ => True
  | [] => writes_pure trivial
  | fx :: fixups => by
    have hrest := writes_patchFixups epiOff fixups
    unfold patchFixups
    refine writes_get.bind (k := 0) fun j hj => ?_
    dsimp only
    split
    · rename_i hfx
      exact (writes_patch (hj ▸ hfx.1) _).bind (k := 0) fun _ _ => hrest
    · exact hrest

theorem sized_return : Sized emitReturn () epilogueWords := by
  have hoff : movWords (BitVec.ofNat 64 CpuLayout.offExec) = 2 := by decide +kernel
  have h : Sized emitReturn () _ := (sized_emit _).bind <| (sized_emit _).bind <| (sized_emit _).bind <|
    (sized_emit _).bind <| (sized_emit _).bind <| (sized_emit _).bind <| (sized_mov 2 _).bind <| (sized_emit _).bind <|
    (sized_emit _).bind <| (sized_emit _).bind <| (sized_emit _).bind <| (sized_emit _).bind <| (sized_emit _).bind <|
    (sized_emit _).bind <| sized_emit _
  rw [hoff] at h
  exact h

theorem writes_epilogue : Writes cap emitEpilogue epilogueWords (· ≤ cap) :=
  (writes_codeOff.bind fun _ hepi => sized_return.writes.bind fun _ _ => writes_pure hepi).congr rfl

theorem sized_prologue : Sized emitPrologue () 4 :=
  ((sized_emit _).bind <| (sized_emit _).bind <| (sized_emit _).bind <| sized_emit _).congr rfl (by rfl)

/-! ## A branch -/

variable {α β : Type} {o n k l : Nat}

/-- After `n` words at `o` there are `k`, whatever they are, and the answer is `a`. -/
def Fills (o n : Nat) (m : Emit α) (a : α) (k : Nat) : Prop :=
  ∀ ws : List U32, ws.length = n → ∃ vs, vs.length = k ∧ Lays o ws m a vs

theorem Sized.fills {m : Emit α} {a : α} (h : Sized m a k) : Fills o n m a (n + k) := by
  obtain ⟨vs, rfl, hvs⟩ := h
  rintro ws rfl
  exact ⟨ws ++ vs, List.length_append, hvs.lays⟩

theorem fills_codeOff : Fills o n codeOff (o + n) n := by
  rintro ws rfl
  exact ⟨ws, rfl, lays_codeOff⟩

theorem fills_hole : Fills o n emitHole (o + n) (n + 1) := by
  rintro ws rfl
  exact ⟨ws ++ [0], List.length_append, lays_hole⟩

theorem fills_patch {i : Nat} (h : i < n) (w : U32) : Fills o n (patch (o + i) w) () n := by
  rintro ws rfl
  exact ⟨ws.set i w, List.length_set .., lays_patch h w⟩

theorem Fills.bind {m : Emit α} {f : α → Emit β} {a : α} {b : β} (hm : Fills o n m a k) (hf : Fills o k (f a) b l) :
    Fills o n (m >>= f) b l := by
  intro ws hws
  obtain ⟨vs, hvs, hm⟩ := hm ws hws
  obtain ⟨us, hus, hf⟩ := hf vs hvs
  exact ⟨us, hus, hm.bind hf⟩

theorem Fills.congr {m : Emit α} {a : α} (h : Fills o n m a k) (e : k = l) : Fills o n m a l := e ▸ h

theorem fills_side (target : U64) (epiOff : Nat) : Fills o n (emitSide target epiOff) () (n + (movWords target + 2)) := by
  have h : Fills o n (emitSide target epiOff) () _ := (sized_mov 0 target).fills.bind <| (sized_emit _).fills.bind <|
    fills_codeOff.bind (sized_emit _).fills
  exact h.congr (by omega)

theorem fills_branch (insn : U32) (pc size : U64) (epiOff : Nat) :
    Fills o 0 (jitBranch insn (rs1 insn) (rs2 insn) (funct3 insn) pc size epiOff) (branchCond (funct3 insn)).isSome
      (branchWords insn pc size) := by
  unfold jitBranch branchWords
  cases branchCond (funct3 insn) with
  | none => exact (sized_loadGuest 0 _).fills.bind <| (sized_loadGuest 1 _).fills.bind <| (sized_emit _).fills.bind <|
      (sized_pure _).fills
  | some cond =>
    refine Fills.congr ((sized_loadGuest 0 _).fills.bind <| (sized_loadGuest 1 _).fills.bind <| (sized_emit _).fills.bind <|
      fills_hole.bind <| (fills_side _ epiOff).bind <| fills_codeOff.bind <| (fills_patch (by omega) _).bind <|
      (fills_side _ epiOff).bind <| (sized_pure true).fills) ?_
    dsimp only
    omega

theorem calls_side (target : U64) (epiOff : Nat) : Calls (emitSide target epiOff) (movWords target + 2) := by
  have hmov := (emits_movImm64 0 target).calls
  rw [movImm_length] at hmov
  exact (hmov.bind fun _ => (calls_emit _).bind fun _ => calls_codeOff.bind fun _ => calls_emit _).congr rfl

theorem calls_branch (insn : U32) (pc size : U64) (epiOff : Nat) :
    Calls (jitBranch insn (rs1 insn) (rs2 insn) (funct3 insn) pc size epiOff) (branchWords insn pc size) := by
  have hrs1 := (emits_loadGuest 0 (rs1 insn)).calls
  have hrs2 := (emits_loadGuest 1 (rs2 insn)).calls
  rw [loadGuest_length] at hrs1 hrs2
  unfold jitBranch branchWords
  cases branchCond (funct3 insn) with
  | none => exact (hrs1.bind fun _ => hrs2.bind fun _ => (calls_emit _).bind fun _ => calls_pure _).congr (by rfl)
  | some cond =>
    refine (hrs1.bind fun _ => hrs2.bind fun _ => (calls_emit _).bind fun _ => calls_hole.bind fun _ =>
      (calls_side _ epiOff).bind fun _ => calls_codeOff.bind fun _ => (calls_patch _ _).bind fun _ =>
      (calls_side _ epiOff).bind fun _ => calls_pure _).congr ?_
    dsimp only
    omega

theorem writes_branch (insn : U32) (pc size : U64) (epiOff : Nat) :
    Writes cap (jitBranch insn (rs1 insn) (rs2 insn) (funct3 insn) pc size epiOff) (branchWords insn pc size)
      fun _ => True :=
  writes_of_lays (calls_branch insn pc size epiOff) (fun _ => trivial) fun _ => ⟨_, fills_branch insn pc size epiOff [] rfl⟩

theorem writes_finishBlock (k : Compile) : Writes cap (finishBlock k) epilogueWords fun _ => True :=
  (writes_epilogue.bind fun epiOff _ => writes_patchFixups epiOff k.fixups).congr rfl

theorem writes_finishBranch (k : Compile) (brInsn : U32) (brCompressed : Bool) :
    Writes cap (finishBranch k brInsn brCompressed)
      (1 + branchWords (expand brInsn brCompressed) k.last_pc (insnBytes brCompressed) + epilogueWords) fun _ => True := by
  refine Writes.congr ((sized_emit countWord).writes.bind fun _ _ => writes_codeOff.bind fun branchStart hstart =>
    (writes_branch _ _ _ _).bind fun _ _ => writes_epilogue.bind fun epiOff hepi =>
    (writes_patchJumps _ epiOff _ _ (by omega)).bind fun _ _ => writes_patchFixups epiOff k.fixups) (by omega)

end Ending

theorem writes_finish {k : Compile} {count : Nat} {stop : Stop} (c : Cpu) (hk : Reached k count stop) :
    Writes cap (finish k c) (finishWords c stop) fun _ => True := by
  have hplain : ∀ c : Cpu, Writes cap (do finishBlock k; return c) epilogueWords fun _ => True := fun c =>
    ((writes_finishBlock k).bind fun _ _ => writes_pure trivial).congr rfl
  have hahead : k.block_ended = false → Writes cap (finish k c) (movWords k.pc + 1 + epilogueWords) fun _ => True := by
    intro hgoes
    unfold finish
    rw [hgoes]
    exact ((sized_mov 0 k.pc).writes.bind fun _ _ => (sized_emit _).writes.bind fun _ _ => hplain c).congr (by omega)
  cases stop with
  | ahead pc =>
    obtain ⟨-, hgoes, rfl⟩ := hk
    exact hahead hgoes
  | cannot t =>
    obtain ⟨-, hgoes, hpc⟩ := hk
    exact (hahead hgoes).congr (by rw [hpc]; rfl)
  | jumped =>
    obtain ⟨-, hended, hop⟩ := hk
    unfold finish
    rw [hended]
    show Writes cap (if true = true ∧ k.last_opcode = 0x63 then _ else _) _ _
    rw [if_neg fun hbranch => hop hbranch.2]
    exact hplain c
  | branch pc =>
    obtain ⟨-, hended, hop, rfl⟩ := hk
    unfold finish finishWords
    rw [hended]
    show Writes cap (if true = true ∧ k.last_opcode = 0x63 then _ else _) _ _
    rw [if_pos ⟨rfl, hop⟩]
    dsimp only
    generalize jitFetchInsn k.last_pc c = fetched
    obtain ⟨_ | ⟨raw, compressed⟩, c'⟩ := fetched
    · exact hplain c'
    · exact ((writes_finishBranch k raw compressed).bind fun _ _ => writes_pure trivial).congr rfl

/-! ## The whole block -/

omit [NetDevice] in
theorem reserve_room {j : CodeBuf} (hcap : maxNeeded ≤ j.code_capacity) :
    (reserve j).2.code_off + maxNeeded ≤ j.code_capacity ∧ (reserve j).2.code_capacity = j.code_capacity ∧
      (reserve j).2.calls = j.calls ∧ (reserve j).2.dropped = j.dropped ∧ (reserve j).2.outside = j.outside := by
  have hrun : (reserve j).2 = if j.code_capacity < j.code_off + maxNeeded then j.flush else j := rfl
  rw [hrun]
  split
  · exact ⟨(Nat.zero_add maxNeeded).symm ▸ hcap, rfl, rfl, rfl, rfl⟩
  · exact ⟨by omega, rfl, rfl, rfl, rfl⟩

/-- The prologue and the loop. -/
def compileBody (h : Helpers) (pc : U64) (c : Cpu) : Emit (Compile × Cpu) := do
  emitPrologue
  compileLoop h jitMaxBlockInsns (.start pc) c

theorem writes_body (h : Helpers) (pc : U64) (c : Cpu) :
    let r := scan jitMaxBlockInsns pc c
    Writes cap (compileBody h pc c) (4 + (bodyWords h r.1 + lostWords h r.2.1))
      fun a => a.2 = r.2.2 ∧ Reached a.1 r.1.length r.2.1 :=
  sized_prologue.writes.bind fun _ _ => (writes_loop h jitMaxBlockInsns (.start pc) c rfl).mono fun _ ha =>
    ⟨ha.1, Nat.zero_add (scan jitMaxBlockInsns pc c).1.length ▸ ha.2⟩

theorem jitCompileBlock_run (h : Helpers) (pc : U64) (c : Cpu) (j : CodeBuf) :
    let start := (reserve j).2
    let r := compileBody h pc c start
    jitCompileBlock h pc c j = closeBlock pc start.code_off r.1.1 r.1.2 r.2 := rfl

/-- **A block takes the words of the table, and with so much room none is lost.** -/
theorem jitCompileBlock_words (h : Helpers) (pc : U64) (c : Cpu) (j : CodeBuf) (hcap : maxNeeded ≤ j.code_capacity) :
    (jitCompileBlock h pc c j).2.calls = j.calls + blockWords h pc c ∧
      (blockWords h pc c ≤ maxNeeded →
        (jitCompileBlock h pc c j).2.dropped = j.dropped ∧ (jitCompileBlock h pc c j).2.outside = j.outside) := by
  obtain ⟨hroom, hcap', hcalls, hdropped, houtside⟩ := reserve_room hcap
  obtain ⟨hbody, hc, hk⟩ := writes_body h pc c (reserve j).2 hcap' (by omega)
  have hcount := hk.1
  rw [jitCompileBlock_run]
  unfold blockWords
  dsimp only
  generalize compileBody h pc c (reserve j).2 = r at hbody hc hk hcount ⊢
  generalize scan jitMaxBlockInsns pc c = b at hbody hc hk hcount ⊢
  unfold closeBlock
  by_cases h0 : r.1.1.insn_count = 0
  · rw [if_pos h0, if_pos (hcount ▸ h0)]
    refine ⟨hbody.calls.trans (by omega), fun hle => ?_⟩
    obtain ⟨hd, ho⟩ := hbody.kept (by omega)
    exact ⟨hd.trans hdropped, ho.trans houtside⟩
  · rw [if_neg h0, if_neg (hcount ▸ h0)]
    obtain ⟨hfinish, -⟩ := writes_finish r.1.2 hk r.2 hbody.capacity hbody.fits
    have hall := hbody.trans hfinish
    show (finish r.1.1 r.1.2 r.2).2.calls = _ ∧
      (_ → (finish r.1.1 r.1.2 r.2).2.dropped = _ ∧ (finish r.1.1 r.1.2 r.2).2.outside = _)
    rw [← hc]
    refine ⟨hall.calls.trans (by omega), fun hle => ?_⟩
    obtain ⟨hd, ho⟩ := hall.kept (by omega)
    exact ⟨hd.trans hdropped, ho.trans houtside⟩

/-- **A block stays within its reservation exactly when its words do.** -/
theorem reserved_iff (h : Helpers) (pc : U64) (c : Cpu) (j : CodeBuf)
    (hcap : j.code_capacity = jitCapacity ∨ j.code_capacity = workerCapacity) :
    Reserved h pc c j ↔ blockWords h pc c ≤ maxNeeded := by
  have hmax : maxNeeded ≤ j.code_capacity := by
    rcases hcap with hcap | hcap <;> rw [hcap] <;> decide
  obtain ⟨hcalls, hkept⟩ := jitCompileBlock_words h pc c j hmax
  unfold Reserved
  dsimp only
  rw [hcalls]
  refine ⟨fun hr => by have := hr.1; omega, fun hle => ⟨by omega, hkept hle⟩⟩

end Reservation

/-! ## Programs -/

section Programs

/-- The word `w` of a program in RAM, as the compiler sees it. -/
def wordAt (k : Nat) (w : U32) : GuestInsn := ⟨ramBase + BitVec.ofNat 64 (4 * k), w, insnBytes false⟩

/-- The words of a program from the `k`th on. -/
def listing : Nat → List U32 → List GuestInsn
  | _, [] => []
  | k, w :: ws => wordAt k w :: listing (k + 1) ws

theorem mem_listing {t : GuestInsn} : ∀ {ws : List U32} {k : Nat}, t ∈ listing k ws → ∃ i w, ws[i]? = some w ∧ t = wordAt (k + i) w
  | w :: ws, k, h => by
    rcases List.mem_cons.1 h with rfl | h
    · exact ⟨0, w, rfl, rfl⟩
    · obtain ⟨i, v, hv, ht⟩ := mem_listing h
      refine ⟨i + 1, v, hv, ?_⟩
      rw [ht, Nat.add_assoc, Nat.add_comm 1]

theorem listing_length : ∀ (ws : List U32) (k : Nat), (listing k ws).length = ws.length
  | [], _ => rfl
  | _ :: ws, k => congrArg (· + 1) (listing_length ws (k + 1))

theorem bodyWords_le {h : Helpers} {b : Nat} {ts : List GuestInsn} (hle : ∀ t ∈ ts, insnWords h t ≤ b) :
    bodyWords h ts ≤ (b + 1) * ts.length := by
  induction ts with
  | nil => exact Nat.zero_le _
  | cons t ts ih =>
    have hfirst := hle t List.mem_cons_self
    have hrest := ih fun u hu => hle u (List.mem_cons_of_mem _ hu)
    show insnWords h t + 1 + bodyWords h ts ≤ (b + 1) * (ts.length + 1)
    rw [Nat.mul_add, Nat.mul_one]
    omega

theorem le_bodyWords {h : Helpers} {b : Nat} {ts : List GuestInsn} (hle : ∀ t ∈ ts, b ≤ insnWords h t) :
    (b + 1) * ts.length ≤ bodyWords h ts := by
  induction ts with
  | nil => exact Nat.zero_le _
  | cons t ts ih =>
    have hfirst := hle t List.mem_cons_self
    have hrest := ih fun u hu => hle u (List.mem_cons_of_mem _ hu)
    show (b + 1) * (ts.length + 1) ≤ insnWords h t + 1 + bodyWords h ts
    rw [Nat.mul_add, Nat.mul_one]
    omega

/-- An address below 4 GiB takes two words. -/
theorem movWords_low {imm : U64} (h : imm.toNat < 2 ^ 32) : movWords imm ≤ 2 := by
  have hchunk : ∀ s, 2 ≤ s → chunk imm s = 0 := by
    intro s hs
    have hpow : 2 ^ 32 ≤ 2 ^ (16 * s) := Nat.pow_le_pow_right (by decide) (by omega)
    unfold chunk
    apply BitVec.eq_of_toNat_eq
    rw [BitVec.toNat_setWidth, BitVec.toNat_ushiftRight, Nat.shiftRight_eq_div_pow,
      Nat.div_eq_of_lt (Nat.lt_of_lt_of_le h hpow)]
    rfl
  have hhigh : [2, 3].countP (fun s => chunk imm s != 0) = 0 := by
    rw [List.countP_eq_zero]
    intro s hs
    rw [hchunk s (by simp at hs; omega)]
    decide
  have hlow : [0, 1].countP (fun s => chunk imm s != 0) ≤ 2 := List.countP_le_length
  have hparts : [0, 1, 2, 3] = [0, 1] ++ [2, 3] := rfl
  unfold movWords
  rw [hparts, List.countP_append, hhigh]
  exact Nat.max_le.2 ⟨by decide, hlow⟩

theorem wordAt_next (k : Nat) (w : U32) :
    (wordAt k w).pc + (wordAt k w).size = ramBase + BitVec.ofNat 64 (4 * (k + 1)) := by
  show ramBase + BitVec.ofNat 64 (4 * k) + BitVec.ofNat 64 4 = _
  rw [show 4 * (k + 1) = 4 * k + 4 by omega, BitVec.ofNat_add (4 * k), ← BitVec.add_assoc]

variable [NetDevice] {ws : List U32} {k : Nat} {w : U32}

theorem fetch_text (hflat : FlatCode (textRam ws) 0x1000 (textCode ws)) (hk : 4 * k < 2 ^ 64) (hw : ws[k]? = some w) :
    jitFetchInsn (ramBase + BitVec.ofNat 64 (4 * k)) (textCpu ws) = (some (w, false), textCpu ws) := by
  have hcode : textCode ws (ramBase + BitVec.ofNat 64 (4 * k)) = some w := (textCode_at hk).trans hw
  obtain ⟨v, hload, hv⟩ := (textCpu_flat ws (textCode ws)).machine.load hflat hcode
  unfold jitFetchInsn
  rw [hload]
  dsimp only
  rw [hv, hflat.word _ _ hcode]
  rfl

/-- A word that ends the block. -/
theorem scan_jumped (hflat : FlatCode (textRam ws) 0x1000 (textCode ws)) (hk : 4 * k < 2 ^ 64) (hw : ws[k]? = some w)
    (hv : verdict w = .compiled) (hends : endsBlock w = true) (n : Nat) :
    scan (n + 1) (ramBase + BitVec.ofNat 64 (4 * k)) (textCpu ws) = ([wordAt k w], .jumped, textCpu ws) := by
  have hverdict : verdict (expand w false) = .compiled := hv
  have hends' : endsBlock (expand w false) = true := hends
  rw [scan, fetch_text hflat hk hw]
  dsimp only
  rw [if_neg (by simp), hverdict]
  dsimp only
  rw [if_pos hends']
  rfl

/-- A word that is not compiled. -/
theorem scan_cannot (hflat : FlatCode (textRam ws) 0x1000 (textCode ws)) (hk : 4 * k < 2 ^ 64) (hw : ws[k]? = some w)
    (hv : verdict w = .cannot) (n : Nat) :
    scan (n + 1) (ramBase + BitVec.ofNat 64 (4 * k)) (textCpu ws) = ([], .cannot (wordAt k w), textCpu ws) := by
  have hverdict : verdict (expand w false) = .cannot := hv
  rw [scan, fetch_text hflat hk hw]
  dsimp only
  rw [if_neg (by simp), hverdict]
  rfl

/-- **Words that do not end the block** are listed one by one. -/
theorem scan_listing (hflat : FlatCode (textRam ws) 0x1000 (textCode ws)) : ∀ (us : List U32) (k m : Nat),
    (∀ i w, us[i]? = some w → ws[k + i]? = some w) → 4 * (k + us.length) < 2 ^ 64 →
    (∀ w ∈ us, verdict w = .compiled ∧ endsBlock w = false) →
    scan (us.length + m) (ramBase + BitVec.ofNat 64 (4 * k)) (textCpu ws) =
      (listing k us ++ (scan m (ramBase + BitVec.ofNat 64 (4 * (k + us.length))) (textCpu ws)).1,
        (scan m (ramBase + BitVec.ofNat 64 (4 * (k + us.length))) (textCpu ws)).2)
  | [], k, m, _, _, _ => by
    rw [List.length_nil, Nat.zero_add]
    rfl
  | w :: us, k, m, hws, hk, hus => by
    rw [List.length_cons] at hk ⊢
    have hrest := scan_listing hflat us (k + 1) m (fun i v hv => by
        rw [show k + 1 + i = k + (i + 1) by omega]
        exact hws (i + 1) v hv)
      (by omega) fun v hv => hus v (List.mem_cons_of_mem _ hv)
    obtain ⟨hv, hends⟩ := hus w List.mem_cons_self
    have hverdict : verdict (expand w false) = .compiled := hv
    have hends' : endsBlock (expand w false) = false := hends
    rw [show k + 1 + us.length = k + (us.length + 1) by omega] at hrest
    have hfetch : jitFetchInsn (ramBase + BitVec.ofNat 64 (4 * k)) (textCpu ws) = (some (w, false), textCpu ws) :=
      fetch_text hflat (by omega) (hws 0 w rfl)
    have hnext : ramBase + BitVec.ofNat 64 (4 * k) + insnBytes false = ramBase + BitVec.ofNat 64 (4 * (k + 1)) := wordAt_next k w
    rw [show us.length + 1 + m = us.length + m + 1 by omega, scan, hfetch]
    dsimp only
    rw [if_neg (by simp), hverdict]
    dsimp only
    rw [hends', if_neg Bool.false_ne_true]
    rw [hnext, hrest]
    rfl

/-- The first words of a program. -/
theorem scan_program (us vs : List U32) (hflat : FlatCode (textRam (us ++ vs)) 0x1000 (textCode (us ++ vs)))
    (hlen : us.length ≤ 64) (hus : ∀ w ∈ us, verdict w = .compiled ∧ endsBlock w = false) :
    let r := scan (64 - us.length) (ramBase + BitVec.ofNat 64 (4 * us.length)) (textCpu (us ++ vs))
    scan jitMaxBlockInsns ramBase (textCpu (us ++ vs)) = (listing 0 us ++ r.1, r.2) := by
  have hlist := scan_listing hflat us 0 (64 - us.length) (fun i w hw => by
      rw [Nat.zero_add]
      exact (List.getElem?_append_left (List.getElem?_eq_some_iff.1 hw).1).trans hw)
    (by omega) hus
  have hstart : ramBase + BitVec.ofNat 64 (4 * 0) = ramBase := BitVec.add_zero _
  rw [hstart, Nat.add_sub_cancel' hlen, Nat.zero_add] at hlist
  exact hlist

end Programs

/-! ## Instances -/

section Instances

local instance reserveNet : NetDevice := NetDevice.silent

/-- The words of `ld x1, 0(x1)`. -/
theorem insnWords_load (pc : U64) : insnWords highHelpers ⟨pc, 0x0000B083, insnBytes false⟩ = movWords pc + 30 := by
  have hop : (opcode 0x0000B083).toNat = 0x03 := by decide
  have hsize : loadSize (funct3 0x0000B083) = some (8, false) := by decide
  have hrd : rd 0x0000B083 ≠ 0 := by decide
  have hfn : movWords highHelpers.fn_load = 3 := by decide
  unfold insnWords
  rw [hop]
  show loadInsnWords highHelpers (rd 0x0000B083) (funct3 0x0000B083) pc = _
  unfold loadInsnWords
  rw [hsize]
  show movWords pc + movWords highHelpers.fn_load + 22 + 4 + 0 + (if rd 0x0000B083 = 0 then 0 else 1) = _
  rw [if_neg hrd]
  omega

/-- The words of `sd x1, 0(x1)`. -/
theorem insnWords_store (pc : U64) : insnWords highHelpers ⟨pc, 0x0010B023, insnBytes false⟩ = movWords pc + 31 := by
  have hop : (opcode 0x0010B023).toNat = 0x23 := by decide
  have hsize : storeSize (funct3 0x0010B023) = some 8 := by decide
  have hfn : movWords highHelpers.fn_store = 3 := by decide
  unfold insnWords
  rw [hop]
  show storeInsnWords highHelpers (funct3 0x0010B023) pc = _
  unfold storeInsnWords
  rw [hsize]
  show movWords pc + movWords highHelpers.fn_store + 24 + 4 = _
  omega

/-- 56 loads and stores by turns, and `ecall`. -/
def turnWords : List U32 := (List.replicate 28 [0x0000B083, 0x0010B023]).flatten
def turnProgram : List U32 := turnWords ++ [0x00000073]

theorem turnWords_length : turnWords.length = 56 := by decide

theorem mem_turnWords {w : U32} (h : w ∈ turnWords) : w = 0x0000B083 ∨ w = 0x0010B023 := by
  obtain ⟨l, hl, hw⟩ := List.mem_flatten.1 h
  rw [List.eq_of_mem_replicate hl] at hw
  simpa using hw

theorem turnProgram_flat : FlatCode (textRam turnProgram) 0x1000 (textCode turnProgram) :=
  flatCode_ecall (by rw [turnWords_length]; decide) fun w hw => by rcases mem_turnWords hw with rfl | rfl <;> decide

/-- The block is all of them. -/
theorem scan_turns : scan jitMaxBlockInsns ramBase (textCpu turnProgram) =
    (listing 0 turnWords, .cannot (wordAt 56 0x00000073), textCpu turnProgram) := by
  have hlist := scan_program turnWords _ turnProgram_flat (by rw [turnWords_length]; decide)
    fun w hw => by rcases mem_turnWords hw with rfl | rfl <;> decide
  have hstop := scan_cannot (n := 7) turnProgram_flat (k := 56) (w := 0x00000073) (by decide) (by decide) (by decide)
  have hlast : scan 8 (ramBase + BitVec.ofNat 64 (4 * 56)) (textCpu (turnWords ++ [0x00000073])) = _ := hstop
  rw [turnWords_length] at hlist
  dsimp only at hlist
  rw [hlast, List.append_nil] at hlist
  exact hlist

theorem blockWords_turns : blockWords highHelpers ramBase (textCpu turnProgram) ≤ 1927 := by
  have hpc : ∀ i, i ≤ 56 → movWords (ramBase + BitVec.ofNat 64 (4 * i)) ≤ 2 := by
    intro i hi
    refine movWords_low ?_
    have hbase : ramBase.toNat = 2 ^ 31 := by decide
    rw [BitVec.toNat_add, BitVec.toNat_ofNat, hbase]
    omega
  have hbody : bodyWords highHelpers (listing 0 turnWords) ≤ 34 * (listing 0 turnWords).length := by
    refine bodyWords_le (b := 33) fun t ht => ?_
    obtain ⟨i, w, hw, rfl⟩ := mem_listing ht
    have hi : i < 56 := turnWords_length ▸ (List.getElem?_eq_some_iff.1 hw).1
    have hmov := hpc i (Nat.le_of_lt hi)
    rw [Nat.zero_add]
    unfold wordAt
    rcases mem_turnWords (List.mem_of_getElem? hw) with rfl | rfl
    · rw [insnWords_load]
      omega
    · rw [insnWords_store]
      omega
  have hlost : insnWords highHelpers (wordAt 56 0x00000073) = 0 := by decide
  have hend := hpc 56 (by decide)
  unfold blockWords
  rw [scan_turns]
  dsimp only
  rw [listing_length, turnWords_length] at hbody
  have hfinish : finishWords (textCpu turnProgram) (.cannot (wordAt 56 0x00000073)) ≤ 19 := by
    show movWords (ramBase + BitVec.ofNat 64 (4 * 56)) + 1 + 16 ≤ 19
    omega
  show 4 + (bodyWords _ _ + insnWords highHelpers (wordAt 56 0x00000073)) + (if _ then 0 else finishWords _ _) ≤ _
  rw [hlost]
  split <;> omega

/-- **A block of 56 loads and stores stays within its reservation.** -/
theorem reserved_turns : Reserved highHelpers ramBase (textCpu turnProgram) emptyBuf :=
  (reserved_iff highHelpers ramBase (textCpu turnProgram) emptyBuf (.inl rfl)).2
    (Nat.le_trans blockWords_turns (by decide))

/-- As many `ld x1, 0(x1)` as a block can hold, and `ecall`. -/
def manyLoads : List U32 := List.replicate 64 0x0000B083
def loadProgram : List U32 := manyLoads ++ [0x00000073]

theorem mem_manyLoads {w : U32} (h : w ∈ manyLoads) : w = 0x0000B083 := List.eq_of_mem_replicate h

theorem scan_loads : (scan jitMaxBlockInsns ramBase (textCpu loadProgram)).1 = listing 0 manyLoads := by
  have hflat : FlatCode (textRam loadProgram) 0x1000 (textCode loadProgram) :=
    flatCode_ecall (by decide) fun w hw => by rw [mem_manyLoads hw]; decide
  have hlist := scan_program manyLoads _ hflat (by decide) fun w hw => by rw [mem_manyLoads hw]; decide
  exact (congrArg Prod.fst hlist).trans (List.append_nil _)

theorem bodyWords_loads : 32 * (listing 0 manyLoads).length ≤ bodyWords highHelpers (listing 0 manyLoads) := by
  refine le_bodyWords (b := 31) fun t ht => ?_
  obtain ⟨i, w, hw, rfl⟩ := mem_listing ht
  have hpos := movWords_pos (ramBase + BitVec.ofNat 64 (4 * (0 + i)))
  rw [mem_manyLoads (List.mem_of_getElem? hw)]
  unfold wordAt
  rw [insnWords_load]
  omega

/-- **A block of 64 loads needs more words than were reserved.** -/
theorem not_reserved_loads : ¬ Reserved highHelpers ramBase (textCpu loadProgram) emptyBuf := by
  have hcap : maxNeeded ≤ emptyBuf.code_capacity := by decide
  have hbody := bodyWords_loads
  have hlen : (listing 0 manyLoads).length = 64 := (listing_length _ _).trans List.length_replicate
  obtain ⟨hcalls, -⟩ := jitCompileBlock_words highHelpers ramBase (textCpu loadProgram) emptyBuf hcap
  rintro ⟨hle, -⟩
  rw [hcalls] at hle
  have hblock : 2048 ≤ blockWords highHelpers ramBase (textCpu loadProgram) := by
    unfold blockWords
    dsimp only
    rw [scan_loads]
    omega
  have hmax : maxNeeded = 1936 := rfl
  omega

/-- The driver of a UART that waits: `lbu x1, 5(x2)`, `sb x1, 0(x2)`, and back to the first. -/
def pollProgram : List U32 := [0x00514083, 0x00110023, 0xFF9FF06F] ++ [0x00000073]

def pollList : List GuestInsn := listing 0 [0x00514083, 0x00110023, 0xFF9FF06F]

theorem scan_poll : scan jitMaxBlockInsns ramBase (textCpu pollProgram) = (pollList, .jumped, textCpu pollProgram) := by
  have hflat : FlatCode (textRam pollProgram) 0x1000 (textCode pollProgram) := flatCode_ecall (by decide) fun w hw => by
    obtain rfl | rfl | rfl : w = 0x00514083 ∨ w = 0x00110023 ∨ w = 0xFF9FF06F := by simpa using hw
    all_goals decide
  have hlist := scan_program [0x00514083, 0x00110023] [0xFF9FF06F, 0x00000073] hflat (by decide) fun w hw => by
    obtain rfl | rfl : w = 0x00514083 ∨ w = 0x00110023 := by simpa using hw
    · decide
    · decide
  have hstop := scan_jumped (n := 61) hflat (k := 2) (w := 0xFF9FF06F) (by decide) (by decide) (by decide) (by decide)
  have hlast : scan 62 (ramBase + BitVec.ofNat 64 (4 * 2)) (textCpu ([0x00514083, 0x00110023] ++ [0xFF9FF06F, 0x00000073])) = _ :=
    hstop
  dsimp only [List.length_cons, List.length_nil, Nat.zero_add, Nat.reduceAdd, Nat.reduceSub] at hlist
  rw [hlast] at hlist
  exact hlist

theorem blockWords_poll : blockWords highHelpers ramBase (textCpu pollProgram) ≤ 128 := by
  unfold blockWords
  rw [scan_poll]
  decide +kernel

end Instances

end Arm64
end PgLinux
