import PgLinux.Arm64Code
/-!
# Arm64Below — the words below a block (`rv64_jit.c`)

Words are patched after they are emitted, and a full buffer drops words.  Also then nothing that stands in the buffer before
a block is compiled is changed: each patch is at a place that `code_off` was at since.
-/
namespace PgLinux
namespace Arm64

variable {α β : Type} {p : List U32}

/-- The buffer starts with the words `p`. -/
structure StartsWith (p : List U32) (j : CodeBuf) : Prop where
  words : ∃ q, j.code_buf = p ++ q
  fits : j.code_off ≤ j.code_capacity
  capacity : j.code_capacity ≤ jitCapacity

/-- A place behind the words `p`. -/
structure Past (p : List U32) (off : Nat) : Prop where
  le : p.length ≤ off
  capacity : off ≤ jitCapacity

/-- Whatever the room, `m` leaves the words `p`, and its answer is as `R` says. -/
def Above (p : List U32) (m : Emit α) (R : α → Prop) : Prop := ∀ j, StartsWith p j → StartsWith p (m j).2 ∧ R (m j).1

variable {R : α → Prop} {S : β → Prop}

theorem above_pure {a : α} (h : R a) : Above p (pure a) R := fun _ hj => ⟨hj, h⟩

theorem Above.bind {m : Emit α} {f : α → Emit β} (hm : Above p m R) (hf : ∀ a, R a → Above p (f a) S) :
    Above p (m >>= f) S := by
  intro j hj
  obtain ⟨hj', ha⟩ := hm j hj
  exact hf _ ha (m j).2 hj'

theorem Above.mono {m : Emit α} {R' : α → Prop} (h : Above p m R) (hR : ∀ a, R a → R' a) : Above p m R' :=
  fun j hj => ⟨(h j hj).1, hR _ (h j hj).2⟩

theorem CodeBuf.pushAll_words : ∀ (ws : List U32) (j : CodeBuf), ∃ q, (j.pushAll ws).code_buf = j.code_buf ++ q
  | [], _ => ⟨[], (List.append_nil _).symm⟩
  | w :: ws, j => by
    obtain ⟨q, hq⟩ := CodeBuf.pushAll_words ws (j.push w)
    have hpush : ∃ q', (j.push w).code_buf = j.code_buf ++ q' := by
      unfold CodeBuf.push
      split
      · exact ⟨[w], rfl⟩
      · exact ⟨[], (List.append_nil _).symm⟩
    obtain ⟨q', hq'⟩ := hpush
    refine ⟨q' ++ q, ?_⟩
    show ((j.push w).pushAll ws).code_buf = _
    rw [hq, hq', List.append_assoc]

theorem Emits.above {m : Emit α} {ws : List U32} {a : α} (h : Emits m ws a) : Above p m (· = a) := by
  intro j hj
  obtain ⟨q, hq⟩ := hj.words
  obtain ⟨q', hq'⟩ := CodeBuf.pushAll_words ws j
  rw [h j]
  refine ⟨⟨⟨q ++ q', ?_⟩, ?_, ?_⟩, rfl⟩
  · rw [hq', hq, List.append_assoc]
  · rw [CodeBuf.pushAll_capacity]
    exact CodeBuf.pushAll_fits ws hj.fits
  · rw [CodeBuf.pushAll_capacity]
    exact hj.capacity

theorem Sized.above {m : Emit α} {a : α} {n : Nat} (h : Sized m a n) : Above p m (· = a) := by
  obtain ⟨ws, -, hws⟩ := h
  exact hws.above

theorem above_emit (w : U32) : Above p (emit w) fun _ => True := (emits_emit w).above.mono fun _ _ => trivial

theorem above_codeOff : Above p codeOff (Past p) := by
  intro j hj
  refine ⟨hj, ?_, Nat.le_trans hj.fits hj.capacity⟩
  obtain ⟨q, hq⟩ := hj.words
  show p.length ≤ j.code_buf.length
  rw [hq, List.length_append]
  exact Nat.le_add_right ..

theorem above_get : Above p get (StartsWith p) := fun _ hj => ⟨hj, hj⟩

theorem above_patch {off : Nat} (h : p.length ≤ off) (w : U32) : Above p (patch off w) fun _ => True := by
  intro j hj
  refine ⟨?_, trivial⟩
  show StartsWith p (j.patch off w)
  unfold CodeBuf.patch
  split
  · obtain ⟨q, hq⟩ := hj.words
    refine ⟨⟨q.set (off - p.length) w, ?_⟩, ?_, hj.capacity⟩
    · show j.code_buf.set off w = _
      rw [hq, List.set_append_right _ _ h]
    · exact Nat.le_trans (Nat.le_of_eq (List.length_set ..)) hj.fits
  · exact ⟨hj.words, hj.fits, hj.capacity⟩

/-! ## Loads and stores -/

theorem above_hole : Above p emitHole (Past p) :=
  above_codeOff.bind fun _ hoff => (above_emit 0).bind fun _ _ => above_pure hoff

theorem above_probe : Above p emitTlbProbe fun b => Past p b.1 ∧ Past p b.2 :=
  (above_emit _).bind fun _ _ => (above_emit _).bind fun _ _ => (above_emit _).bind fun _ _ => (above_emit _).bind fun _ _ =>
  (above_emit _).bind fun _ _ => (above_emit _).bind fun _ _ => (above_emit _).bind fun _ _ => above_hole.bind fun _ hbne =>
  (above_emit _).bind fun _ _ => above_hole.bind fun _ hcbz => above_pure ⟨hbne, hcbz⟩

theorem above_page (t : U32) (size : Nat) : Above p (emitPageCheck t size) fun off => ∀ x ∈ off, Past p x := by
  unfold emitPageCheck
  split
  · exact (above_emit _).bind fun _ _ => (emits_movImm64 4 4096).above.bind fun _ _ => (above_emit _).bind fun _ _ =>
      above_hole.bind fun _ hoff => above_pure fun _ hx => Option.mem_some.1 hx ▸ hoff
  · exact above_pure fun x hx => by cases hx

/-- The places of a fast path to be patched. -/
structure BranchesPast (p : List U32) (b : Branches) : Prop where
  bne_slow : Past p b.bne_slow
  cbz_slow : Past p b.cbz_slow
  cbz_dirty : ∀ x ∈ b.cbz_dirty, Past p x
  bhi_slow : ∀ x ∈ b.bhi_slow, Past p x
  b_done : Past p b.b_done

theorem above_loadFast (size : Nat) : Above p (emitLoadFast size) (BranchesPast p) :=
  above_probe.bind fun _ hprobe => (above_emit _).bind fun _ _ => (above_page 10 size).bind fun _ hpage =>
  (above_emit _).bind fun _ _ => above_hole.bind fun _ hdone =>
  above_pure ⟨hprobe.1, hprobe.2, (fun _ hx => nomatch hx), hpage, hdone⟩

theorem above_storeFast (size : Nat) : Above p (emitStoreFast size) (BranchesPast p) :=
  above_probe.bind fun _ hprobe => (above_emit _).bind fun _ _ => above_hole.bind fun _ hdirty =>
  (above_emit _).bind fun _ _ => (above_page 11 size).bind fun _ hpage => (above_emit _).bind fun _ _ =>
  above_hole.bind fun _ hdone =>
  above_pure ⟨hprobe.1, hprobe.2, fun _ hx => Option.mem_some.1 hx ▸ hdirty, hpage, hdone⟩

theorem above_patchSome {off : Option Nat} (h : ∀ x ∈ off, Past p x) (word : Nat → U32) :
    Above p (patchSome off word) fun _ => True := by
  cases off with
  | none => exact above_pure trivial
  | some off => exact above_patch (h off rfl).le _

theorem above_patchSlow {b : Branches} (h : BranchesPast p b) : Above p (patchSlow b) fun _ => True :=
  above_codeOff.bind fun _ _ => (above_patch h.bne_slow.le _).bind fun _ _ => (above_patch h.cbz_slow.le _).bind fun _ _ =>
  (above_patchSome h.cbz_dirty _).bind fun _ _ => above_patchSome h.bhi_slow _

theorem above_patchDone {b : Branches} (h : BranchesPast p b) : Above p (patchDone b) fun _ => True :=
  above_codeOff.bind fun _ _ => above_patch h.b_done.le _

theorem above_loadCall (h : Helpers) (size : Nat) : Above p (emitLoadCall h size) (Past p) :=
  (above_emit _).bind fun _ _ => (above_emit _).bind fun _ _ => (above_emit _).bind fun _ _ =>
  (emits_movImm64 16 _).above.bind fun _ _ => (above_emit _).bind fun _ _ => above_hole.bind fun _ hoff =>
  (above_emit _).bind fun _ _ => above_pure hoff

theorem above_storeCall (h : Helpers) (size : Nat) : Above p (emitStoreCall h size) (Past p) :=
  (above_emit _).bind fun _ _ => (above_emit _).bind fun _ _ => (above_emit _).bind fun _ _ =>
  (emits_movImm64 16 _).above.bind fun _ _ => (above_emit _).bind fun _ _ => above_hole

/-- The exception exit that an answer tells of. -/
def FixupPast (p : List U32) (result : U32) : Prop := (result >>> 8).toNat ≠ 0 → p.length ≤ (result >>> 8).toNat

theorem fixupPast_result {off : Nat} (h : Past p off) : FixupPast p (fixupResult off) := by
  have hcap : jitCapacity = 2 ^ 24 := rfl
  have hle := h.capacity
  intro hne
  by_cases hlt : off < 2 ^ 24
  · rw [fixupResult_off hlt]
    exact h.le
  · obtain rfl : off = 2 ^ 24 := by omega
    exact absurd rfl hne

theorem above_loadAccess (h : Helpers) (rd : BitVec 5) (size : Nat) (doSext : Bool) :
    Above p (emitLoadAccess h rd size doSext) (FixupPast p) :=
  (above_loadFast size).bind fun _ hb => (above_patchSlow hb).bind fun _ _ => (above_loadCall h size).bind fun _ hoff =>
  (above_patchDone hb).bind fun _ _ => (emits_sext doSext size 2 2).above.bind fun _ _ =>
  (emits_storeGuest 2 rd).above.bind fun _ _ => (above_patch hoff.le _).bind fun _ _ => above_pure (fixupPast_result hoff)

theorem above_storeAccess (h : Helpers) (size : Nat) : Above p (emitStoreAccess h size) (FixupPast p) :=
  (above_storeFast size).bind fun _ hb => (above_patchSlow hb).bind fun _ _ => (above_storeCall h size).bind fun _ hoff =>
  (above_patchDone hb).bind fun _ _ => (above_patch hoff.le _).bind fun _ _ => above_pure (fixupPast_result hoff)

theorem fixupPast_zero : FixupPast p 0 := fun h => absurd rfl h

theorem above_load (h : Helpers) (insn : U32) (rd rs1 : BitVec 5) (f3 : BitVec 3) (pc : U64) :
    Above p (jitLoad h insn rd rs1 f3 pc) (FixupPast p) := by
  unfold jitLoad
  cases loadSize f3 with
  | none => exact above_pure fixupPast_zero
  | some kind =>
    obtain ⟨size, doSext⟩ := kind
    exact (sized_address pc _ rs1).above.bind fun _ _ => above_loadAccess h rd size doSext

theorem above_store (h : Helpers) (insn : U32) (rs1 rs2 : BitVec 5) (f3 : BitVec 3) (pc : U64) :
    Above p (jitStore h insn rs1 rs2 f3 pc) (FixupPast p) := by
  unfold jitStore
  cases storeSize f3 with
  | none => exact above_pure fixupPast_zero
  | some size =>
    exact (sized_address pc _ rs1).above.bind fun _ _ => (sized_loadGuest 2 rs2).above.bind fun _ _ =>
      above_storeAccess h size

/-! ## Instructions -/

def FixupsPast (p : List U32) (k : Compile) : Prop := ∀ fx ∈ k.fixups, p.length ≤ fx

theorem FixupsPast.note {k : Compile} (h : FixupsPast p k) {result : U32} (hr : FixupPast p result) :
    FixupsPast p (k.noteFixup result) := by
  unfold Compile.noteFixup
  split
  · dsimp only
    split
    · next hfx =>
      intro fx hmem
      rcases List.mem_append.1 hmem with hold | hnew
      · exact h fx hold
      · obtain rfl := List.mem_singleton.1 hnew
        exact hr hfx.1
    · exact h
  · exact h

theorem Sized.abovePlain {m : Emit Bool} {ok : Bool} {n : Nat} {k : Compile} (hm : Sized m ok n) (h : FixupsPast p k) :
    Above p (do return (ofBool (← m), k)) fun r => FixupsPast p r.2 :=
  hm.above.bind fun _ _ => above_pure h

theorem above_insn (h : Helpers) {k : Compile} (hk : FixupsPast p k) (insn : U32) (size : U64) :
    Above p (k.insn h insn size) fun r => FixupsPast p r.2 := by
  unfold Compile.insn
  generalize (opcode insn).toNat = op
  split
  · exact (sized_op ..).abovePlain hk
  · exact (sized_opImm ..).abovePlain hk
  · exact (sized_op32 ..).abovePlain hk
  · exact (sized_opImm32 ..).abovePlain hk
  · exact (sized_constTo ..).abovePlain hk
  · exact (sized_constTo ..).abovePlain hk
  · exact (sized_fence insn).abovePlain hk
  · exact (above_load h insn _ _ _ k.pc).bind fun _ hr => above_pure (hk.note hr)
  · exact (above_store h insn _ _ _ k.pc).bind fun _ hr => above_pure fun fx hfx => hk.note hr fx hfx
  · exact (sized_jal ..).abovePlain fun fx hfx => hk fx hfx
  · exact (sized_jalr ..).abovePlain fun fx hfx => hk fx hfx
  · exact above_pure fun fx hfx => hk fx hfx
  · exact above_pure hk

section Block

variable [NetDevice]

theorem above_loop (h : Helpers) : ∀ (n : Nat) (k : Compile) (c : Cpu), FixupsPast p k →
    Above p (compileLoop h n k c) fun r => FixupsPast p r.1
  | 0, _, _, hk => above_pure hk
  | n + 1, k, c, hk => by
    unfold compileLoop
    rcases jitFetchInsn k.pc c with ⟨_ | ⟨raw, compressed⟩, c'⟩
    · exact above_pure hk
    · dsimp only
      split
      · exact above_pure hk
      · have hk' : FixupsPast p { k with last_opcode := opcode (expand raw compressed), last_pc := k.pc } := hk
        refine (above_insn h hk' _ _).bind fun r hr => ?_
        obtain ⟨res, k1⟩ := r
        have hr1 : FixupsPast p k1 := hr
        cases res with
        | deferred => exact above_pure fun fx hfx => hr1 fx hfx
        | cannot => exact above_pure hr1
        | compiled =>
          refine (above_emit countWord).bind fun _ _ => ?_
          dsimp only
          split
          · exact above_pure fun fx hfx => hr1 fx hfx
          · exact above_loop h n _ c' fun fx hfx => hr1 fx hfx

theorem above_body (h : Helpers) (pc : U64) (c : Cpu) : Above p (compileBody h pc c) fun r => FixupsPast p r.1 :=
  sized_prologue.above.bind fun _ _ => above_loop h jitMaxBlockInsns (.start pc) c fun fx hfx => by cases hfx

/-! ## The end of a block -/

omit [NetDevice] in
theorem above_side (target : U64) (epiOff : Nat) : Above p (emitSide target epiOff) fun _ => True :=
  (emits_movImm64 0 target).above.bind fun _ _ => (above_emit _).bind fun _ _ => above_codeOff.bind fun _ _ => above_emit _

omit [NetDevice] in
theorem above_branch (insn : U32) (pc size : U64) (epiOff : Nat) :
    Above p (jitBranch insn (rs1 insn) (rs2 insn) (funct3 insn) pc size epiOff) fun _ => True := by
  unfold jitBranch
  cases branchCond (funct3 insn) with
  | none =>
    exact (sized_loadGuest 0 _).above.bind fun _ _ => (sized_loadGuest 1 _).above.bind fun _ _ =>
      (above_emit _).bind fun _ _ => above_pure trivial
  | some cond =>
    exact (sized_loadGuest 0 _).above.bind fun _ _ => (sized_loadGuest 1 _).above.bind fun _ _ =>
      (above_emit _).bind fun _ _ => above_hole.bind fun _ hoff => (above_side _ _).bind fun _ _ =>
      above_codeOff.bind fun _ _ => (above_patch hoff.le _).bind fun _ _ => (above_side _ _).bind fun _ _ => above_pure trivial

omit [NetDevice] in
theorem above_patchJumps (dummyEpi epiOff : Nat) : ∀ (n off : Nat), p.length ≤ off →
    Above p (patchJumps dummyEpi epiOff n off) fun _ => True
  | 0, _, _ => above_pure trivial
  | n + 1, off, h => by
    have hrest := above_patchJumps dummyEpi epiOff n (off + 1) (Nat.le_succ_of_le h)
    unfold patchJumps
    refine above_get.bind fun j _ => ?_
    dsimp only
    split
    · exact (above_patch h _).bind fun _ _ => hrest
    · exact hrest

omit [NetDevice] in
theorem above_patchFixups (epiOff : Nat) : ∀ fixups : List Nat, (∀ fx ∈ fixups, p.length ≤ fx) →
    Above p (patchFixups epiOff fixups) fun _ => True
  | [], _ => above_pure trivial
  | fx :: fixups, h => by
    have hrest := above_patchFixups epiOff fixups fun fx' hfx' => h fx' (List.mem_cons_of_mem _ hfx')
    unfold patchFixups
    refine above_get.bind fun j _ => ?_
    dsimp only
    split
    · exact (above_patch (h fx List.mem_cons_self) _).bind fun _ _ => hrest
    · exact hrest

omit [NetDevice] in
theorem above_epilogue : Above p emitEpilogue (Past p) :=
  above_codeOff.bind fun _ hoff => sized_return.above.bind fun _ _ => above_pure hoff

omit [NetDevice] in
theorem above_finishBlock {k : Compile} (hk : FixupsPast p k) : Above p (finishBlock k) fun _ => True :=
  above_epilogue.bind fun epiOff _ => above_patchFixups epiOff k.fixups hk

omit [NetDevice] in
theorem above_finishBranch {k : Compile} (hk : FixupsPast p k) (brInsn : U32) (brCompressed : Bool) :
    Above p (finishBranch k brInsn brCompressed) fun _ => True :=
  (above_emit _).bind fun _ _ => above_codeOff.bind fun _ hstart => (above_branch _ _ _ _).bind fun _ _ =>
  above_epilogue.bind fun epiOff _ => (above_patchJumps _ epiOff _ _ hstart.le).bind fun _ _ =>
  above_patchFixups epiOff k.fixups hk

theorem above_finish {k : Compile} (hk : FixupsPast p k) (c : Cpu) : Above p (finish k c) fun _ => True := by
  have hplain : ∀ c : Cpu, Above p (do finishBlock k; return c) fun _ => True := fun c =>
    (above_finishBlock hk).bind fun _ _ => above_pure trivial
  cases hended : k.block_ended with
  | false =>
    unfold finish
    rw [hended]
    exact (emits_movImm64 0 k.pc).above.bind fun _ _ => (above_emit _).bind fun _ _ => hplain c
  | true =>
    unfold finish
    rw [hended]
    show Above p (if true = true ∧ k.last_opcode = 0x63 then _ else _) _
    split
    · split
      · exact (above_finishBranch hk _ _).bind fun _ _ => above_pure trivial
      · exact hplain _
    · exact hplain c

/-- **Compiling a block leaves what stands below it**, however much room there is; a block that is given up leaves nothing
else. -/
theorem jitCompileBlock_below (h : Helpers) (pc : U64) (c : Cpu) {j : CodeBuf} (hcap : maxNeeded ≤ j.code_capacity)
    (hmax : j.code_capacity ≤ jitCapacity) :
    let start := (reserve j).2
    let r := jitCompileBlock h pc c j
    StartsWith start.code_buf r.2 ∧ r.2.code_capacity = j.code_capacity ∧
      (blockInsns pc c = 0 → r.1.1 = none ∧ r.2.code_buf = start.code_buf) ∧
      (blockInsns pc c ≠ 0 → ∃ b, r.1.1 = some b ∧ b.guest_pc = pc ∧ b.host_code = start.code_off ∧
        b.insn_count = blockInsns pc c) := by
  intro start r
  obtain ⟨hroom, hcap', -⟩ := reserve_room hcap
  have hoff : start.code_off + maxNeeded ≤ j.code_capacity := hroom
  have hsame : start.code_capacity = j.code_capacity := hcap'
  have hstart : StartsWith start.code_buf start := by
    refine ⟨⟨[], (List.append_nil _).symm⟩, ?_, ?_⟩
    · rw [hcap']
      omega
    · rw [hcap']
      exact hmax
  obtain ⟨hbody, hfix⟩ := above_body (p := start.code_buf) h pc c start hstart
  obtain ⟨hwrote, -, hk⟩ := (writes_body h pc c : Writes j.code_capacity _ _ _) start hcap' (by omega)
  have hcount : (compileBody h pc c start).1.1.insn_count = blockInsns pc c := hk.1
  have hrun : r = closeBlock pc start.code_off (compileBody h pc c start).1.1 (compileBody h pc c start).1.2
      (compileBody h pc c start).2 := jitCompileBlock_run h pc c j
  rw [hrun]
  unfold closeBlock
  by_cases h0 : blockInsns pc c = 0
  · rw [if_pos (hcount.trans h0)]
    obtain ⟨q, hq⟩ := hbody.words
    have hrevert : (compileBody h pc c start).2.code_buf.take start.code_off = start.code_buf := by
      rw [hq]
      exact List.take_left
    refine ⟨⟨⟨[], hrevert.trans (List.append_nil _).symm⟩, ?_, hbody.capacity⟩, hwrote.capacity.trans hcap',
      fun _ => ⟨rfl, hrevert⟩, fun hne => absurd h0 hne⟩
    show ((compileBody h pc c start).2.code_buf.take start.code_off).length ≤ _
    rw [hrevert]
    show start.code_off ≤ (compileBody h pc c start).2.code_capacity
    rw [hwrote.capacity]
    omega
  · rw [if_neg fun he => h0 (hcount.symm.trans he)]
    obtain ⟨hfinish, -⟩ := above_finish hfix (compileBody h pc c start).1.2 (compileBody h pc c start).2 hbody
    obtain ⟨hwrote', -⟩ := (writes_finish (compileBody h pc c start).1.2 hk : Writes j.code_capacity _ _ _)
      (compileBody h pc c start).2 (hwrote.capacity.trans hcap') (by rw [← hcap', ← hwrote.capacity]; exact hbody.fits)
    exact ⟨hfinish, hwrote'.capacity.trans (hwrote.capacity.trans hcap'), fun he => absurd he h0,
      fun _ => ⟨_, rfl, rfl, rfl, hcount⟩⟩

end Block

end Arm64
end PgLinux
