import PgLinux.Arm64FastPath
import PgLinux.Arm64Steps
/-!
# Arm64Code — the words of a finished block (`jit_compile_block`)

The compiler writes an exception exit as a word that names itself and a branch to the end with a distance that is not one,
and patches both when it knows where the epilogue is.  What is left in the buffer does not depend on where the block is.
-/
namespace PgLinux
namespace Arm64

variable {α β : Type}

/-! ## Code that leaves words -/

/-- As `Lays`, of an answer that is as `R` says. -/
structure Leaves (o : Nat) (ws : List U32) (m : Emit α) (R : α → Prop) (vs : List U32) : Prop where
  grows : ws.length ≤ vs.length
  run : ∀ j pre, j.HoldsFrom o pre ws → o + vs.length ≤ j.code_capacity →
    R (m j).1 ∧ (m j).2.HoldsFrom o pre vs ∧ (m j).2.code_capacity = j.code_capacity

section Leaves

variable {o : Nat} {ws vs us : List U32} {R : α → Prop} {S : β → Prop}

theorem Lays.leaves {m : Emit α} {a : α} (h : Lays o ws m a vs) (ha : R a) : Leaves o ws m R vs := by
  refine ⟨h.grows, fun j pre hj hroom => ?_⟩
  obtain ⟨hans, hj', hcap, -⟩ := h.run j pre hj hroom
  exact ⟨hans.symm ▸ ha, hj', hcap⟩

theorem leaves_pure {a : α} (ha : R a) : Leaves o ws (pure a) R ws := (lays_pure a).leaves ha

theorem Emits.leaves {m : Emit α} {a : α} (h : Emits m vs a) (ha : R a) : Leaves o ws m R (ws ++ vs) := h.lays.leaves ha

theorem Leaves.answer {m : Emit α} (h : Leaves o ws m R vs) : ∃ a, R a := by
  let j : CodeBuf := ⟨List.replicate o 0 ++ ws, o + vs.length, 0, false, false⟩
  exact ⟨_, (h.run j _ ⟨List.length_replicate, rfl⟩ (Nat.le_refl _)).1⟩

theorem Leaves.bind {m : Emit α} {f : α → Emit β} (hm : Leaves o ws m R vs) (hf : ∀ a, R a → Leaves o vs (f a) S us) :
    Leaves o ws (m >>= f) S us := by
  obtain ⟨a, ha⟩ := hm.answer
  have hgrows := (hf a ha).grows
  refine ⟨Nat.le_trans hm.grows hgrows, fun j pre hj hroom => ?_⟩
  obtain ⟨hR, hj', hcap⟩ := hm.run j pre hj (by omega)
  obtain ⟨hS, hj'', hcap'⟩ := (hf _ hR).run (m j).2 pre hj' (by omega)
  exact ⟨hS, hj'', hcap'.trans hcap⟩

theorem Leaves.congr {m : Emit α} (h : Leaves o ws m R vs) (e : vs = us) : Leaves o ws m R us := e ▸ h

theorem Leaves.mono {m : Emit α} {R' : α → Prop} (h : Leaves o ws m R vs) (hR : ∀ a, R a → R' a) : Leaves o ws m R' vs :=
  ⟨h.grows, fun j pre hj hroom =>
    have hrun := h.run j pre hj hroom
    ⟨hR _ hrun.1, hrun.2⟩⟩

/-- What is laid down behind other words. -/
theorem Lays.after {m : Emit α} {a : α} (h : Lays (o + ws.length) [] m a vs) : Lays o ws m a (ws ++ vs) := by
  refine ⟨by rw [List.length_append]; exact Nat.le_add_right .., fun j pre hj hroom => ?_⟩
  have hstart : j.HoldsFrom (o + ws.length) (pre ++ ws) [] :=
    ⟨by rw [List.length_append, hj.1], by rw [List.append_nil]; exact hj.2⟩
  rw [List.length_append, ← Nat.add_assoc] at hroom
  obtain ⟨ha, ⟨-, hbuf⟩, hrest⟩ := h.run j (pre ++ ws) hstart hroom
  exact ⟨ha, ⟨hj.1, by rw [hbuf, List.append_assoc]⟩, hrest⟩

end Leaves

/-! ## Instructions -/

/-- A load after its address, with the exit `hole`. -/
def loadCode (h : Helpers) (rd : BitVec 5) (size : Nat) (doSext : Bool) (hole : U32) : List U32 :=
  fastPath false 10 size (ldrRegWord size 2 8 9) (bWord (movWords h.fn_load + 7)) ++
    (loadCallWords h size hole ++ (sextWords doSext size 2 2 ++ storeGuest 2 rd))

/-- A store after its address and value. -/
def storeCode (h : Helpers) (size : Nat) (hole : U32) : List U32 :=
  fastPath true 11 size (strRegWord size 2 8 9) (bWord (movWords h.fn_store + 6)) ++ storeCallWords h size hole

/-- The words of an instruction that calls nothing, also of one that is given up. -/
def plainCode (h : Helpers) (t : GuestInsn) : List U32 :=
  ((Compile.start t.pc).insn h t.insn t.size ⟨[], insnWords h t, 0, false, false⟩).2.code_buf

/-- Where the exit of an instruction is, when it is a load or a store. -/
def exitOf (h : Helpers) (t : GuestInsn) : Option Nat :=
  match (opcode t.insn).toNat with
  | 0x03 => (loadSize (funct3 t.insn)).map fun k => movWords t.pc + 3 + (slowOff false k.1 + (movWords h.fn_load + 4))
  | 0x23 => (storeSize (funct3 t.insn)).map fun size => movWords t.pc + 4 + (slowOff true size + (movWords h.fn_store + 4))
  | _ => none

/-- The words of an instruction, with the exit `hole`. -/
def insnCode (h : Helpers) (t : GuestInsn) (hole : U32) : List U32 :=
  match (opcode t.insn).toNat with
  | 0x03 =>
    match loadSize (funct3 t.insn) with
    | none => []
    | some (size, doSext) => addressWords t.pc (t.insn.extractLsb' 20 12) (rs1 t.insn) ++ loadCode h (rd t.insn) size doSext hole
  | 0x23 =>
    match storeSize (funct3 t.insn) with
    | none => []
    | some size => addressWords t.pc (t.insn.extractLsb' 25 7 ++ t.insn.extractLsb' 7 5) (rs1 t.insn) ++
        (loadGuest 2 (rs2 t.insn) ++ storeCode h size hole)
  | _ => plainCode h t

/-- The word that an exit is before it is patched. -/
def sentinel (h : Helpers) (o : Nat) (t : GuestInsn) : U32 := BitVec.ofNat 32 (o + (exitOf h t).getD 0)

def Compile.noteExit (k : Compile) (exit : Option Nat) : Compile := { k with fixups := k.fixups ++ exit.toList }

theorem fixupResult_off {off : Nat} (h : off < 2 ^ 24) : (fixupResult off >>> 8).toNat = off := by
  have hshift : (BitVec.ofNat 32 off <<< 8).toNat = off <<< 8 := by
    rw [BitVec.toNat_shiftLeft, BitVec.toNat_ofNat, Nat.mod_eq_of_lt (a := off) (by omega), Nat.shiftLeft_eq]
    exact Nat.mod_eq_of_lt (by omega)
  have hor : (fixupResult off).toNat = 1 ||| off <<< 8 := by
    unfold fixupResult
    rw [BitVec.toNat_or, hshift]
    rfl
  rw [BitVec.toNat_ushiftRight, hor, Nat.shiftRight_or_distrib, Nat.shiftLeft_shiftRight]
  exact Nat.zero_or off

theorem noteFixup_exit {k : Compile} {off : Nat} (hpos : 0 < off) (hlt : off < 2 ^ 24)
    (hk : k.fixups.length < jitMaxBlockInsns) : k.noteFixup (fixupResult off) = k.noteExit (some off) := by
  unfold Compile.noteFixup
  rw [if_pos (fixupResult_bit off), fixupResult_off hlt]
  exact if_pos ⟨by omega, hk⟩

section Insn

variable {h : Helpers} {k : Compile} {insn : U32} {size : U64} {o : Nat} {ws : List U32}

theorem insn_words {vs : List U32} {r : Result × Compile} (hemit : Emits (k.insn h insn size) vs r) :
    insnWords h ⟨k.pc, insn, size⟩ = vs.length ∧ r.1 = verdict insn ∧
      Followed k r.2 (endsBlock insn || verdict insn == .deferred) := by
  let j : CodeBuf := ⟨[], insnWords h ⟨k.pc, insn, size⟩, 0, false, false⟩
  obtain ⟨hwrote, hanswer, hfollowed⟩ := (writes_insn h k insn size : Writes j.code_capacity _ _ _) j rfl (Nat.zero_le _)
  have hcalls := hwrote.calls
  have hpush := CodeBuf.pushAll_calls vs j
  rw [hemit j] at hanswer hfollowed hcalls
  exact ⟨Nat.add_left_cancel (hcalls.symm.trans hpush), hanswer, hfollowed⟩

def SameCode (m m' : Emit α) : Prop := ∀ j, (m' j).2 = (m j).2

/-- Of the locals, only the pc is in the code. -/
theorem insn_code (h : Helpers) {k k' : Compile} (insn : U32) (size : U64) (hpc : k'.pc = k.pc) :
    SameCode (k.insn h insn size) (k'.insn h insn size) := by
  unfold Compile.insn
  rw [hpc]
  dsimp only
  generalize (opcode insn).toNat = op
  split <;> exact fun _ => rfl

theorem plainCode_eq {vs : List U32} {r : Result × Compile} (hemit : Emits (k.insn h insn size) vs r) :
    plainCode h ⟨k.pc, insn, size⟩ = vs := by
  have hlen := (insn_words hemit).1
  have hstart : (Compile.start k.pc).pc = k.pc := rfl
  show ((Compile.start k.pc).insn h insn size _).2.code_buf = vs
  rw [insn_code h insn size hstart, hemit]
  exact (CodeBuf.pushAll_room vs _ (by rw [hlen]; exact Nat.le_of_eq (Nat.zero_add _))).1

theorem insnCode_plain {t : GuestInsn} (hload : opcode t.insn ≠ 0x03) (hstore : opcode t.insn ≠ 0x23) (hole : U32) :
    insnCode h t hole = plainCode h t ∧ exitOf h t = none := by
  have hl : (opcode t.insn).toNat ≠ 0x03 := fun e => hload (BitVec.eq_of_toNat_eq e)
  have hs : (opcode t.insn).toNat ≠ 0x23 := fun e => hstore (BitVec.eq_of_toNat_eq e)
  unfold insnCode exitOf
  generalize (opcode t.insn).toNat = op at hl hs
  constructor
  · split
    · exact absurd rfl hl
    · exact absurd rfl hs
    · rfl
  · split
    · exact absurd rfl hl
    · exact absurd rfl hs
    · rfl

/-- What an instruction adds to the buffer and to the locals. -/
structure Coded (h : Helpers) (k : Compile) (t : GuestInsn) (o : Nat) (r : Result × Compile) : Prop where
  result : r.1 = .compiled
  followed : Followed k r.2 (endsBlock t.insn)
  fixups : r.2.fixups = k.fixups ++ ((exitOf h t).map (o + ·)).toList

theorem leaves_plain [NetDevice] (hv : verdict insn = .compiled) (hload : opcode insn ≠ 0x03) (hstore : opcode insn ≠ 0x23) :
    Leaves o ws (k.insn h insn size) (Coded h k ⟨k.pc, insn, size⟩ (o + ws.length))
      (ws ++ insnCode h ⟨k.pc, insn, size⟩ (sentinel h (o + ws.length) ⟨k.pc, insn, size⟩)) := by
  obtain ⟨vs, hemit, -⟩ := compiles_plain h k size hv hload hstore
  obtain ⟨hcode, hexit⟩ := insnCode_plain (h := h) (t := ⟨k.pc, insn, size⟩) hload hstore
    (sentinel h (o + ws.length) ⟨k.pc, insn, size⟩)
  have hnone : verdict insn ≠ .deferred := by
    rw [hv]
    decide
  rw [hcode, plainCode_eq hemit]
  refine hemit.leaves ⟨rfl, ?_, ?_⟩
  · have hfollowed := (insn_words hemit).2.2
    rwa [beq_false_of_ne hnone, Bool.or_false] at hfollowed
  · rw [hexit]
    exact (List.append_nil _).symm

/-- The answer of a load or a store becomes an exit of the block. -/
theorem leaves_access {m : Emit U32} {g : U32 → Compile} {e : Nat} {vs : List U32} {t : GuestInsn}
    (hm : Lays (o + ws.length) [] m (fixupResult (o + ws.length + e)) vs) (hexit : exitOf h t = some e)
    (hends : endsBlock t.insn = false) (hg : Followed k (g (fixupResult (o + ws.length + e))) false)
    (hfix : (g (fixupResult (o + ws.length + e))).fixups = k.fixups ++ [o + ws.length + e]) :
    Leaves o ws (do let result ← m; return (ofBool (result.getLsbD 0), g result)) (Coded h k t (o + ws.length)) (ws ++ vs) := by
  have hlays : Lays o ws (do let result ← m; return (ofBool (result.getLsbD 0), g result)) _ _ := hm.after.bind (lays_pure _)
  refine hlays.leaves ⟨?_, ?_, ?_⟩
  · rw [fixupResult_bit]
    rfl
  · rw [hends]
    exact hg
  · rw [hexit]
    exact hfix

theorem insnCode_load {t : GuestInsn} (hop : opcode t.insn = 0x03) {n : Nat} {doSext : Bool}
    (hkind : loadSize (funct3 t.insn) = some (n, doSext)) :
    exitOf h t = some (movWords t.pc + 3 + (slowOff false n + (movWords h.fn_load + 4))) ∧ ∀ hole, insnCode h t hole =
      addressWords t.pc (t.insn.extractLsb' 20 12) (rs1 t.insn) ++ loadCode h (rd t.insn) n doSext hole := by
  have hopn : (opcode t.insn).toNat = 0x03 := by rw [hop]; rfl
  unfold exitOf insnCode
  rw [hkind]
  rw [hopn]
  exact ⟨rfl, fun _ => rfl⟩

theorem insnCode_store {t : GuestInsn} (hop : opcode t.insn = 0x23) {n : Nat} (hkind : storeSize (funct3 t.insn) = some n) :
    exitOf h t = some (movWords t.pc + 4 + (slowOff true n + (movWords h.fn_store + 4))) ∧ ∀ hole, insnCode h t hole =
      addressWords t.pc (t.insn.extractLsb' 25 7 ++ t.insn.extractLsb' 7 5) (rs1 t.insn) ++
        (loadGuest 2 (rs2 t.insn) ++ storeCode h n hole) := by
  have hopn : (opcode t.insn).toNat = 0x23 := by rw [hop]; rfl
  unfold exitOf insnCode
  rw [hkind]
  rw [hopn]
  exact ⟨rfl, fun _ => rfl⟩

/-- An exit is among the words of its instruction. -/
theorem exitOf_lt {t : GuestInsn} {e : Nat} (he : exitOf h t = some e) : e < insnWords h t := by
  unfold exitOf at he
  unfold insnWords
  split at he
  next hop =>
    obtain ⟨kind, hkind, rfl⟩ := Option.map_eq_some_iff.1 he
    simp only [hop]
    unfold loadInsnWords pageCheckWords slowOff
    rw [hkind]
    simp only [Bool.false_eq_true, if_false]
    omega
  next hop =>
    obtain ⟨n, hkind, rfl⟩ := Option.map_eq_some_iff.1 he
    simp only [hop]
    unfold storeInsnWords pageCheckWords slowOff
    rw [hkind]
    simp only [if_true]
    omega
  next => cases he

theorem leaves_load (hop : opcode insn = 0x03) {kind : Nat × Bool} (hkind : loadSize (funct3 insn) = some kind)
    (hroom : o + ws.length + insnWords h ⟨k.pc, insn, size⟩ ≤ 2 ^ 24) (hk : k.fixups.length < jitMaxBlockInsns) :
    Leaves o ws (k.insn h insn size) (Coded h k ⟨k.pc, insn, size⟩ (o + ws.length))
      (ws ++ insnCode h ⟨k.pc, insn, size⟩ (sentinel h (o + ws.length) ⟨k.pc, insn, size⟩)) := by
  obtain ⟨n, doSext⟩ := kind
  have hopn : (opcode insn).toNat = 0x03 := by rw [hop]; rfl
  obtain ⟨hexit, hcode⟩ := insnCode_load (h := h) (t := ⟨k.pc, insn, size⟩) hop hkind
  have hlays : Lays (o + ws.length) []
      (emitAddress k.pc (immI insn) (rs1 insn) >>= fun _ => emitLoadAccess h (rd insn) n doSext) _ _ :=
    (emits_address k.pc (insn.extractLsb' 20 12) (rs1 insn)).then_lays (lays_loadAccess h (rd insn) n doSext)
  have hexitLt := exitOf_lt hexit
  dsimp only at hexit hcode hexitLt
  have hinsn : k.insn h insn size = do
      let result ← emitAddress k.pc (immI insn) (rs1 insn) >>= fun _ => emitLoadAccess h (rd insn) n doSext
      return (ofBool (result.getLsbD 0), k.noteFixup result) := by
    unfold Compile.insn jitLoad
    simp only [hopn, hkind]
  have hoff : o + ws.length + (addressWords k.pc (insn.extractLsb' 20 12) (rs1 insn)).length +
      (slowOff false n + (movWords h.fn_load + 4)) =
      o + ws.length + (movWords k.pc + 3 + (slowOff false n + (movWords h.fn_load + 4))) := by
    rw [addressWords_length, Nat.add_assoc]
  rw [hoff] at hlays
  rw [hinsn, hcode]
  refine (leaves_access hlays hexit ?_ (followed_noteFixup k _) ?_).congr ?_
  · unfold endsBlock
    simp only [hopn]
  · rw [noteFixup_exit (by omega) (by omega) hk]
    rfl
  · unfold sentinel
    rw [hexit, Option.getD_some, ← hoff]
    rfl

theorem leaves_store (hop : opcode insn = 0x23) {n : Nat} (hkind : storeSize (funct3 insn) = some n)
    (hroom : o + ws.length + insnWords h ⟨k.pc, insn, size⟩ ≤ 2 ^ 24) (hk : k.fixups.length < jitMaxBlockInsns) :
    Leaves o ws (k.insn h insn size) (Coded h k ⟨k.pc, insn, size⟩ (o + ws.length))
      (ws ++ insnCode h ⟨k.pc, insn, size⟩ (sentinel h (o + ws.length) ⟨k.pc, insn, size⟩)) := by
  have hopn : (opcode insn).toNat = 0x23 := by rw [hop]; rfl
  obtain ⟨hexit, hcode⟩ := insnCode_store (h := h) (t := ⟨k.pc, insn, size⟩) hop hkind
  have hlays : Lays (o + ws.length) [] (emitAddress k.pc (immS insn) (rs1 insn) >>= fun _ =>
      emitLoadGuest 2 (rs2 insn) >>= fun _ => emitStoreAccess h n) _ _ :=
    (emits_address k.pc (insn.extractLsb' 25 7 ++ insn.extractLsb' 7 5) (rs1 insn)).then_lays <|
      (emits_loadGuest 2 (rs2 insn)).then_lays (lays_storeAccess h n)
  have hexitLt := exitOf_lt hexit
  dsimp only at hexit hcode hexitLt
  have hinsn : k.insn h insn size = do
      let result ← emitAddress k.pc (immS insn) (rs1 insn) >>= fun _ =>
        emitLoadGuest 2 (rs2 insn) >>= fun _ => emitStoreAccess h n
      return (ofBool (result.getLsbD 0), { k.noteFixup result with has_store := k.has_store || result.getLsbD 0 }) := by
    unfold Compile.insn jitStore
    simp only [hopn, hkind]
  have hoff : o + ws.length + (addressWords k.pc (insn.extractLsb' 25 7 ++ insn.extractLsb' 7 5) (rs1 insn)).length +
      (loadGuest 2 (rs2 insn)).length + (slowOff true n + (movWords h.fn_store + 4)) =
      o + ws.length + (movWords k.pc + 4 + (slowOff true n + (movWords h.fn_store + 4))) := by
    rw [addressWords_length, loadGuest_length]
    omega
  rw [hoff] at hlays
  rw [hinsn, hcode]
  refine (leaves_access (g := fun result => { k.noteFixup result with has_store := k.has_store || result.getLsbD 0 })
    hlays hexit ?_ ?_ ?_).congr ?_
  · unfold endsBlock
    simp only [hopn]
  · obtain ⟨hpc, hcount, hended, hop', hlast⟩ :=
      followed_noteFixup k (fixupResult (o + ws.length + (movWords k.pc + 4 + (slowOff true n + (movWords h.fn_store + 4)))))
    exact ⟨hpc, hcount, hended, hop', hlast⟩
  · rw [noteFixup_exit (by omega) (by omega) hk]
    rfl
  · unfold sentinel
    rw [hexit, Option.getD_some, ← hoff]
    rfl

/-- **An instruction that is compiled** leaves its code, with a sentinel for its exit. -/
theorem leaves_insn [NetDevice] (hv : verdict insn = .compiled)
    (hroom : o + ws.length + insnWords h ⟨k.pc, insn, size⟩ ≤ 2 ^ 24) (hk : k.fixups.length < jitMaxBlockInsns) :
    Leaves o ws (k.insn h insn size) (Coded h k ⟨k.pc, insn, size⟩ (o + ws.length))
      (ws ++ insnCode h ⟨k.pc, insn, size⟩ (sentinel h (o + ws.length) ⟨k.pc, insn, size⟩)) := by
  by_cases hload : opcode insn = 0x03
  · cases hkind : loadSize (funct3 insn) with
    | some kind => exact leaves_load hload hkind hroom hk
    | none =>
      unfold verdict at hv
      rw [hload, hkind] at hv
      cases hv
  · by_cases hstore : opcode insn = 0x23
    · cases hkind : storeSize (funct3 insn) with
      | some n => exact leaves_store hstore hkind hroom hk
      | none =>
        unfold verdict at hv
        rw [hstore, hkind] at hv
        cases hv
    · exact leaves_plain hv hload hstore

theorem loadCode_length (rd : BitVec 5) (n : Nat) (doSext : Bool) (hole : U32) : (loadCode h rd n doSext hole).length =
    slowOff false n + (movWords h.fn_load + 6) + (if doSext then 1 else 0) + if rd = 0 then 0 else 1 := by
  unfold loadCode fastPath sextWords
  simp only [List.length_append, fastWords_length, loadCallWords_length, storeGuest_length, Nat.add_assoc]
  cases doSext <;> rfl

theorem storeCode_length (n : Nat) (hole : U32) :
    (storeCode h n hole).length = slowOff true n + (movWords h.fn_store + 5) := by
  unfold storeCode fastPath
  simp only [List.length_append, fastWords_length, storeCallWords_length]

theorem insnCode_length [NetDevice] {t : GuestInsn} (hv : verdict t.insn = .compiled) (hole : U32) :
    (insnCode h t hole).length = insnWords h t := by
  by_cases hload : opcode t.insn = 0x03
  · have hopn : (opcode t.insn).toNat = 0x03 := by rw [hload]; rfl
    cases hkind : loadSize (funct3 t.insn) with
    | some kind =>
      obtain ⟨n, doSext⟩ := kind
      rw [(insnCode_load hload hkind).2, List.length_append, addressWords_length, loadCode_length]
      unfold insnWords
      simp only [hopn]
      unfold loadInsnWords pageCheckWords slowOff
      rw [hkind]
      simp only [Bool.false_eq_true, if_false]
      omega
    | none =>
      unfold verdict at hv
      rw [hload, hkind] at hv
      cases hv
  · by_cases hstore : opcode t.insn = 0x23
    · have hopn : (opcode t.insn).toNat = 0x23 := by rw [hstore]; rfl
      cases hkind : storeSize (funct3 t.insn) with
      | some n =>
        rw [(insnCode_store hstore hkind).2, List.length_append, List.length_append, addressWords_length,
          loadGuest_length, storeCode_length]
        unfold insnWords
        simp only [hopn]
        unfold storeInsnWords pageCheckWords slowOff
        rw [hkind]
        simp only [if_true]
        omega
      | none =>
        unfold verdict at hv
        rw [hstore, hkind] at hv
        cases hv
    · obtain ⟨vs, hemit, -⟩ := compiles_plain h (Compile.start t.pc) t.size hv hload hstore
      have hcode : plainCode h t = vs := plainCode_eq hemit
      rw [(insnCode_plain hload hstore hole).1, hcode]
      exact (insn_words hemit).1.symm

end Insn

/-! ## Instructions that are given up -/

section Refused

variable {e : Place} {c : Cpu}

theorem does_loadGuest (hp : Placed e.base e.ram c) {r : A64.Reg} (hr : r = 0 ∨ r = 1) (i : BitVec 5) :
    Does e c c (loadGuest (r.setWidth 32) i) := by
  intro s hcpu hrep
  have hlt : r.toNat < 19 := by rcases hr with rfl | rfl <;> decide
  have h31 : r ≠ 31 := by rcases hr with rfl | rfl <;> decide
  have hgo := goes_loadGuest hrep hp.zero hcpu (hr.elim .inl fun h => .inr (.inl h)) i
  have hmem : (s.set r (c.x i)).mem = s.mem := A64.set_mem h31
  exact ⟨_, hgo, steady_of_mem (kept_set hlt s _) hmem, hmem.symm ▸ hrep⟩

theorem does_testZero : Does e c c [cmpWord 1 31] := by
  intro s _ hrep
  have hcmp : A64.decodeOp (cmpWord 1 31) = some (.base (.subs 31 1 31)) := by decide +kernel
  exact ⟨s.compare (s.get 1) (s.get 31), A64.goes_op hcmp rfl,
    steady_of_mem (.of_keeps (A64.keeps_compare : A64.Keeps [] s _) (by decide)) rfl, hrep⟩

/-- `m` gives up; the words it leaves change nothing. -/
def GivesUp (m : Emit Bool) : Prop :=
  ∃ ws, Emits m ws false ∧ ∀ (e : Place) (c : Cpu), Placed e.base e.ram c → Does e c c ws

theorem givesUp_false : GivesUp (return false) := ⟨[], emits_pure false, fun e c _ => does_nil e c⟩

theorem GivesUp.then {m : Emit Bool} (h : GivesUp m) (f : Emit Bool) :
    GivesUp (do if ← m then f else return false) := by
  obtain ⟨ws, hemit, hdoes⟩ := h
  refine ⟨ws ++ [], hemit.bind (emits_pure false), fun e c hp => ?_⟩
  rw [List.append_nil]
  exact hdoes e c hp

theorem GivesUp.loaded {m : Emit Bool} (h : GivesUp m) {r : A64.Reg} (hr : r = 0 ∨ r = 1) (i : BitVec 5) :
    GivesUp (do emitLoadGuest (r.setWidth 32) i; m) := by
  obtain ⟨ws, hemit, hdoes⟩ := h
  exact ⟨_, (emits_loadGuest _ i).bind hemit, fun e c hp => (does_loadGuest hp hr i).append (hdoes e c hp)⟩

theorem givesUp_neither {f7 : BitVec 7} {m m' : Emit Bool} (h : (f7 == 0 || f7 == 0x20) = false) :
    GivesUp (if f7 = 0 then m else if f7 = 0x20 then m' else return false) := by
  obtain ⟨h0, h20⟩ := Bool.or_eq_false_iff.1 h
  rw [if_neg (ne_of_beq_false h0), if_neg (ne_of_beq_false h20)]
  exact givesUp_false

theorem givesUp_op {rd rs1 rs2 : BitVec 5} {f3 : BitVec 3} {f7 : BitVec 7} (h : opCompiles rd f3 f7 = false) :
    GivesUp (jitOp rd rs1 rs2 f3 f7) := by
  unfold opCompiles at h
  unfold jitOp
  by_cases hrd : rd = 0
  · rw [if_pos hrd] at h
    cases h
  · rw [if_neg hrd] at h ⊢
    refine GivesUp.loaded (r := 0) (GivesUp.loaded (r := 1) (GivesUp.then ?_ _) (.inr rfl) _) (.inl rfl) _
    by_cases h1 : f7 = 1
    · rw [if_pos h1] at h ⊢
      have hdiv : GivesUp (jitOpM 4) :=
        ⟨[cmpWord 1 31], (emits_emit _).bind (emits_pure false), fun e c _ => does_testZero⟩
      rcases funct3_cases f3 with rfl | rfl | rfl | rfl | rfl | rfl | rfl | rfl
      all_goals first | cases h; done | exact givesUp_false | exact hdiv
    · rw [if_neg h1] at h ⊢
      rcases funct3_cases f3 with rfl | rfl | rfl | rfl | rfl | rfl | rfl | rfl
      all_goals first | cases h | exact givesUp_neither h

theorem givesUp_op32 {rd rs1 rs2 : BitVec 5} {f3 : BitVec 3} {f7 : BitVec 7} (h : op32Compiles rd f3 f7 = false) :
    GivesUp (jitOp32 rd rs1 rs2 f3 f7) := by
  unfold op32Compiles at h
  unfold jitOp32
  by_cases hrd : rd = 0
  · rw [if_pos hrd] at h
    cases h
  · rw [if_neg hrd] at h ⊢
    refine GivesUp.loaded (r := 0) (GivesUp.loaded (r := 1) (GivesUp.then ?_ _) (.inr rfl) _) (.inl rfl) _
    unfold emitOp32
    by_cases h1 : f7 = 1
    · rw [if_pos h1] at h ⊢
      rw [if_neg (ne_of_beq_false h)]
      exact givesUp_false
    · rw [if_neg h1] at h ⊢
      rcases funct3_cases f3 with rfl | rfl | rfl | rfl | rfl | rfl | rfl | rfl
      all_goals first | cases h; done | exact givesUp_false | exact givesUp_neither h

theorem givesUp_opImm32 {insn : U32} {rd rs1 : BitVec 5} (h : opImm32Compiles rd (funct3 insn) = false) :
    GivesUp (jitOpImm32 insn rd rs1 (funct3 insn)) := by
  unfold opImm32Compiles at h
  unfold jitOpImm32
  by_cases hrd : rd = 0
  · rw [if_pos hrd] at h
    cases h
  · rw [if_neg hrd] at h ⊢
    refine GivesUp.loaded (r := 0) (GivesUp.then ?_ _) (.inl rfl) _
    unfold emitOpImm32
    generalize funct3 insn = f3 at h
    rcases funct3_cases f3 with rfl | rfl | rfl | rfl | rfl | rfl | rfl | rfl
    all_goals first | cases h; done | exact givesUp_false

/-- **An instruction that is given up** leaves words that change nothing. -/
theorem refused [NetDevice] (h : Helpers) (k : Compile) {insn : U32} (size : U64) (hv : verdict insn = .cannot) :
    Emits (k.insn h insn size) (plainCode h ⟨k.pc, insn, size⟩) (.cannot, k) ∧
      ∀ (e : Place) (c : Cpu), Placed e.base e.ram c → Does e c c (plainCode h ⟨k.pc, insn, size⟩) := by
  suffices hwords : ∃ ws, Emits (k.insn h insn size) ws (.cannot, k) ∧
      ∀ (e : Place) (c : Cpu), Placed e.base e.ram c → Does e c c ws by
    obtain ⟨ws, hemit, hdoes⟩ := hwords
    rw [plainCode_eq hemit]
    exact ⟨hemit, hdoes⟩
  have hcannot : ∀ {ok : Bool}, ofBool ok = .cannot → ok = false := by decide
  have hanswer : ∀ {m : Emit Bool}, GivesUp m → ∃ ws, Emits (do return (ofBool (← m), k)) ws (.cannot, k) ∧
      ∀ (e : Place) (c : Cpu), Placed e.base e.ram c → Does e c c ws := by
    rintro m ⟨ws, hemit, hdoes⟩
    refine ⟨ws ++ [], hemit.bind (emits_pure _), fun e c hp => ?_⟩
    rw [List.append_nil]
    exact hdoes e c hp
  have hnone : ∃ ws, Emits (return (.cannot, k) : Emit (Result × Compile)) ws (.cannot, k) ∧
      ∀ (e : Place) (c : Cpu), Placed e.base e.ram c → Does e c c ws := ⟨[], emits_pure _, fun e c _ => does_nil e c⟩
  unfold verdict at hv
  unfold Compile.insn
  generalize (opcode insn).toNat = op at hv
  split at hv
  case h_1 => exact hanswer (givesUp_op (hcannot hv))
  case h_2 => exact hanswer (givesUp_op32 (hcannot hv))
  case h_3 => exact hanswer (givesUp_opImm32 (hcannot hv))
  case h_4 =>
    refine hanswer ⟨[], ?_, fun e c _ => does_nil e c⟩
    unfold jitFence
    rw [hcannot hv]
    exact emits_pure false
  case h_5 =>
    have hkind : loadSize (funct3 insn) = none := by simpa using hcannot hv
    unfold jitLoad
    rw [hkind]
    exact hnone
  case h_6 =>
    have hkind : storeSize (funct3 insn) = none := by simpa using hcannot hv
    have hk : ({ k.noteFixup 0 with has_store := k.has_store || false } : Compile) = k := by
      rw [Bool.or_false]
      rfl
    unfold jitStore
    rw [hkind]
    have hemit : Emits (return (Result.cannot, { k.noteFixup 0 with has_store := k.has_store || false })) [] (.cannot, k) := by
      rw [hk]
      exact emits_pure _
    exact ⟨[], hemit, fun e c _ => does_nil e c⟩
  case h_13 => simp only [*]
  all_goals cases hv

end Refused

/-! ## The instructions of a block -/

section Body

variable [NetDevice] (h : Helpers)

/-- The words of the instructions from word `o` on, the exits not patched. -/
def bodyAt : Nat → List GuestInsn → List U32
  | _, [] => []
  | o, t :: ts => insnCode h t (sentinel h o t) ++ countWord :: bodyAt (o + (insnWords h t + 1)) ts

/-- The exits of the instructions from word `o` on. -/
def exitsAt : Nat → List GuestInsn → List Nat
  | _, [] => []
  | o, t :: ts => ((exitOf h t).map (o + ·)).toList ++ exitsAt (o + (insnWords h t + 1)) ts

def cbnzWord (dist : Nat) : U32 := 0x35000000 ||| (BitVec.ofNat 32 dist &&& 0x7FFFF) <<< 5

/-- How far the exit of `t` jumps, `n` words before the epilogue. -/
def exitDist (t : GuestInsn) (n : Nat) : Nat := insnWords h t - (exitOf h t).getD 0 + 1 + n

/-- The words of the instructions, `n` words before the epilogue. -/
def body (n : Nat) : List GuestInsn → List U32
  | [] => []
  | t :: ts => insnCode h t (cbnzWord (exitDist h t (bodyWords h ts + n))) ++ countWord :: body n ts

/-- The words of an instruction that ended the block. -/
def lostCode : Stop → List U32
  | .cannot t => plainCode h t
  | _ => []

variable {h}

theorem scan_compiled : ∀ (n : Nat) (pc : U64) (c : Cpu), ∀ t ∈ (scan n pc c).1, verdict t.insn = .compiled
  | 0, _, _, t, ht => absurd ht List.not_mem_nil
  | n + 1, pc, c, t, ht => by
    unfold scan at ht
    generalize jitFetchInsn pc c = fetched at ht
    obtain ⟨_ | ⟨raw, compressed⟩, c'⟩ := fetched
    · exact absurd ht List.not_mem_nil
    · dsimp only at ht
      generalize expand raw compressed = insn at ht
      by_cases h0 : compressed = true ∧ insn = 0
      · rw [if_pos h0] at ht
        exact absurd ht List.not_mem_nil
      · rw [if_neg h0] at ht
        cases hv : verdict insn with
        | deferred =>
          rw [hv] at ht
          exact absurd ht List.not_mem_nil
        | cannot =>
          rw [hv] at ht
          exact absurd ht List.not_mem_nil
        | compiled =>
          rw [hv] at ht
          dsimp only at ht
          by_cases he : endsBlock insn = true
          · rw [if_pos he] at ht
            rw [List.mem_singleton.1 ht]
            exact hv
          · rw [if_neg he] at ht
            rcases List.mem_cons.1 ht with rfl | ht
            · exact hv
            · exact scan_compiled n _ c' t ht

omit [NetDevice] in
theorem bodyWords_cons (t : GuestInsn) (ts : List GuestInsn) :
    bodyWords h (t :: ts) = insnWords h t + 1 + bodyWords h ts := rfl

theorem bodyAt_length : ∀ (o : Nat) (ts : List GuestInsn), (∀ t ∈ ts, verdict t.insn = .compiled) →
    (bodyAt h o ts).length = bodyWords h ts
  | _, [], _ => rfl
  | o, t :: ts, hts => by
    have hlen := bodyAt_length (o + (insnWords h t + 1)) ts fun t' ht' => hts t' (List.mem_cons_of_mem _ ht')
    unfold bodyAt
    rw [List.length_append, List.length_cons, hlen, insnCode_length (hts t List.mem_cons_self), bodyWords_cons]
    omega

theorem body_length (n : Nat) : ∀ ts : List GuestInsn, (∀ t ∈ ts, verdict t.insn = .compiled) →
    (body h n ts).length = bodyWords h ts
  | [], _ => rfl
  | t :: ts, hts => by
    have hlen := body_length n ts fun t' ht' => hts t' (List.mem_cons_of_mem _ ht')
    unfold body
    rw [List.length_append, List.length_cons, hlen, insnCode_length (hts t List.mem_cons_self), bodyWords_cons]
    omega

variable {o : Nat}

omit [NetDevice] in
theorem leaves_deferred {ws : List U32} {k : Compile} {insn : U32} {size : U64} (hv : verdict insn = .deferred) :
    Leaves o ws (k.insn h insn size) (· = (.deferred, { k with block_ended := true })) ws := by
  have hop := verdict_deferred hv
  unfold Compile.insn
  rw [hop]
  exact leaves_pure rfl

/-- **The loop leaves the code of the instructions** that `scan` tells, and notes their exits. -/
theorem leaves_loop : ∀ (n : Nat) (k : Compile) (c : Cpu) (ws : List U32), k.block_ended = false →
    k.fixups.length + n ≤ jitMaxBlockInsns → o + ws.length + bodyWords h (scan n k.pc c).1 ≤ 2 ^ 24 →
    Leaves o ws (compileLoop h n k c) (fun r => r.1.fixups = k.fixups ++ exitsAt h (o + ws.length) (scan n k.pc c).1)
      (ws ++ (bodyAt h (o + ws.length) (scan n k.pc c).1 ++ lostCode h (scan n k.pc c).2.1))
  | 0, k, c, ws, _, _, _ => by
    refine (leaves_pure ?_).congr (List.append_nil _).symm
    exact (List.append_nil _).symm
  | n + 1, k, c, ws, hk, hfix, hroom => by
    have hstop : ∀ {k' : Compile} {c' : Cpu}, k'.fixups = k.fixups → Leaves o ws (return (k', c'))
        (fun r => r.1.fixups = k.fixups ++ []) (ws ++ ([] ++ [])) := by
      intro k' c' hk'
      refine (leaves_pure ?_).congr (List.append_nil ws).symm
      exact hk'.trans (List.append_nil _).symm
    unfold compileLoop
    unfold scan at hroom ⊢
    generalize jitFetchInsn k.pc c = fetched at hroom ⊢
    obtain ⟨_ | ⟨raw, compressed⟩, c'⟩ := fetched
    · exact hstop rfl
    · dsimp only at hroom ⊢
      generalize expand raw compressed = insn at hroom ⊢
      by_cases h0 : compressed = true ∧ insn = 0
      · rw [if_pos h0, if_pos h0]
        exact hstop rfl
      · rw [if_neg h0] at hroom
        rw [if_neg h0, if_neg h0]
        let k0 : Compile := { k with last_opcode := opcode insn, last_pc := k.pc }
        let t : GuestInsn := ⟨k.pc, insn, insnBytes compressed⟩
        have hwords : ∀ vs : List U32, ws ++ ([] ++ vs) = ws ++ vs := fun _ => rfl
        cases hv : verdict insn with
        | deferred =>
          rw [hv] at hroom
          refine Leaves.bind (leaves_deferred (k := k0) hv) ?_
          rintro _ rfl
          exact hstop rfl
        | cannot =>
          have hemit := (refused h k0 (insnBytes compressed) hv).1
          refine (hemit.leaves (R := (· = (.cannot, k0))) rfl).bind ?_
          rintro _ rfl
          exact leaves_pure (List.append_nil _).symm
        | compiled =>
          rw [hv] at hroom
          dsimp only at hroom ⊢
          have hinsn : o + ws.length + (insnWords h t + 1) ≤ 2 ^ 24 → Leaves o ws (k0.insn h insn (insnBytes compressed)) _ _ :=
            fun hle => leaves_insn (h := h) (k := k0) hv
              (by show _ + insnWords h t ≤ _; omega) (by show k.fixups.length < _; omega)
          have hlen := insnCode_length (h := h) (t := t) hv (sentinel h (o + ws.length) t)
          by_cases he : endsBlock insn = true
          · rw [if_pos he] at hroom ⊢
            refine (hinsn hroom).bind fun r hr => ?_
            obtain ⟨res, k'⟩ := r
            obtain ⟨rfl, hf, hx⟩ := hr
            have hended : k'.block_ended = true := by
              rw [hf.block_ended]
              exact Bool.or_eq_true_iff.2 (.inr he)
            refine ((emits_emit countWord).leaves (R := fun _ => True) trivial).bind fun _ _ => ?_
            rw [if_pos hended]
            refine (leaves_pure ?_).congr ?_
            · show k'.fixups = k.fixups ++ (_ ++ [])
              rw [List.append_nil]
              exact hx
            · simp only [bodyAt, lostCode, List.append_nil, List.append_assoc]
              rfl
          · rw [if_neg he] at hroom ⊢
            have hsum : o + ws.length + (insnWords h t + 1 + bodyWords h (scan n (k.pc + insnBytes compressed) c').1) ≤ 2 ^ 24 :=
              hroom
            refine (hinsn (by omega)).bind fun r hr => ?_
            obtain ⟨res, k'⟩ := r
            obtain ⟨rfl, hf, hx⟩ := hr
            have hgoes : k'.block_ended = false := by
              rw [hf.block_ended]
              exact Bool.or_eq_false_iff.2 ⟨hk, eq_false_of_ne_true he⟩
            have hpc : k'.pc = k.pc := hf.pc
            refine ((emits_emit countWord).leaves (R := fun _ => True) trivial).bind fun _ _ => ?_
            rw [if_neg (by rw [hgoes]; decide)]
            let k1 : Compile := { k' with insn_count := k'.insn_count + 1, pc := k'.pc + insnBytes compressed }
            let ws1 := ws ++ insnCode h t (sentinel h (o + ws.length) t) ++ [countWord]
            have hat : o + ws1.length = o + ws.length + (insnWords h t + 1) := by
              show o + (ws ++ insnCode h t _ ++ [countWord]).length = _
              rw [List.length_append, List.length_append, hlen]
              simp only [List.length_cons, List.length_nil]
              omega
            have hfix1 : k1.fixups = k.fixups ++ ((exitOf h t).map (o + ws.length + ·)).toList := hx
            have hcount : k1.fixups.length + n ≤ jitMaxBlockInsns := by
              have hone : ((exitOf h t).map (o + ws.length + ·)).toList.length ≤ 1 := by
                cases exitOf h t <;> simp
              rw [hfix1, List.length_append]
              omega
            have hpc1 : k1.pc = k.pc + insnBytes compressed := congrArg (· + insnBytes compressed) hpc
            have hrest := leaves_loop n k1 c' ws1 hgoes hcount
            rw [hpc1, hat] at hrest
            refine ((hrest (by omega)).mono fun r hr => ?_).congr ?_
            · rw [hr, hfix1, List.append_assoc]
              rfl
            · show ws ++ insnCode h t _ ++ [countWord] ++ (_ ++ _) = ws ++ (insnCode h t _ ++ countWord :: _ ++ _)
              simp only [List.append_assoc, List.cons_append, List.nil_append]
              rfl

/-! ## Exits -/

omit [NetDevice] in
theorem HoldsFrom.getD {j : CodeBuf} {pre ws : List U32} {i : Nat} {w : U32} (hj : j.HoldsFrom o pre ws)
    (hi : ws[i]? = some w) : j.code_buf.getD (o + i) 0 = w := by
  rw [hj.2, List.getD_eq_getElem?_getD, List.getElem?_append_right (by have := hj.1; omega), hj.1, Nat.add_sub_cancel_left, hi]
  rfl

omit [NetDevice] in
theorem lays_patchFixup {ws vs : List U32} {i epi : Nat} {rest : List Nat} (hi : ws[i]? = some (BitVec.ofNat 32 (o + i)))
    (hrest : Lays o (ws.set i (cbnzWord (epi - (o + i)))) (patchFixups epi rest) () vs) :
    Lays o ws (patchFixups epi ((o + i) :: rest)) () vs := by
  have hlt : i < ws.length := (List.getElem?_eq_some_iff.1 hi).1
  have hgrows : ws.length ≤ vs.length := by
    have hle := hrest.grows
    rwa [List.length_set] at hle
  refine ⟨hgrows, fun j pre hj hroom => ?_⟩
  have hcond : o + i < j.code_capacity ∧ j.code_buf.getD (o + i) 0 = BitVec.ofNat 32 (o + i) :=
    ⟨by omega, HoldsFrom.getD hj hi⟩
  have hrun : patchFixups epi ((o + i) :: rest) j =
      (patch (o + i) (cbnzWord (epi - (o + i))) >>= fun _ => patchFixups epi rest) j := by
    show (if o + i < j.code_capacity ∧ j.code_buf.getD (o + i) 0 = BitVec.ofNat 32 (o + i) then _ else _ : Emit Unit) j = _
    rw [if_pos hcond]
    rfl
  rw [hrun]
  exact ((lays_patch hlt _).bind hrest).run j pre hj hroom

omit [NetDevice] in
/-- The words of an instruction on both sides of its exit. -/
theorem insnCode_split {t : GuestInsn} {e : Nat} (he : exitOf h t = some e) :
    ∃ a b : List U32, a.length = e ∧ ∀ hole, insnCode h t hole = a ++ hole :: b := by
  unfold exitOf at he
  split at he
  next hop =>
    obtain ⟨⟨n, doSext⟩, hkind, rfl⟩ := Option.map_eq_some_iff.1 he
    have hcode := (insnCode_load (h := h) (BitVec.eq_of_toNat_eq hop) hkind).2
    refine ⟨addressWords t.pc (t.insn.extractLsb' 20 12) (rs1 t.insn) ++
      (fastPath false 10 n (ldrRegWord n 2 8 9) (bWord (movWords h.fn_load + 7)) ++
        (movWord 0 cpuReg :: movzWWord 2 (BitVec.ofNat 16 n) :: addImm12Word 3 31 0 :: (movImm 16 h.fn_load ++ [blrWord 16]))),
      ldrXWord 2 31 0 :: (sextWords doSext n 2 2 ++ storeGuest 2 (rd t.insn)), ?_, fun hole => ?_⟩
    · unfold fastPath
      simp only [List.length_append, List.length_cons, List.length_nil, addressWords_length, fastWords_length, movImm_length]
    · rw [hcode]
      simp [loadCode, loadCallWords]
  next hop =>
    obtain ⟨n, hkind, rfl⟩ := Option.map_eq_some_iff.1 he
    have hcode := (insnCode_store (h := h) (BitVec.eq_of_toNat_eq hop) hkind).2
    refine ⟨addressWords t.pc (t.insn.extractLsb' 25 7 ++ t.insn.extractLsb' 7 5) (rs1 t.insn) ++ (loadGuest 2 (rs2 t.insn) ++
      (fastPath true 11 n (strRegWord n 2 8 9) (bWord (movWords h.fn_store + 6)) ++
        (movWord 0 cpuReg :: movWord 3 2 :: movzWWord 2 (BitVec.ofNat 16 n) :: (movImm 16 h.fn_store ++ [blrWord 16])))),
      [], ?_, fun hole => ?_⟩
    · unfold fastPath
      simp only [List.length_append, List.length_cons, List.length_nil, addressWords_length, fastWords_length, movImm_length,
        loadGuest_length]
      omega
    · rw [hcode]
      simp [storeCode, storeCallWords]
  next => cases he

omit [NetDevice] in
theorem insnCode_none {t : GuestInsn} (he : exitOf h t = none) (a b : U32) : insnCode h t a = insnCode h t b := by
  unfold exitOf at he
  unfold insnCode
  split at he
  next =>
    rw [Option.map_eq_none_iff] at he
    simp only [he]
  next =>
    rw [Option.map_eq_none_iff] at he
    simp only [he]
  next => rfl

/-- **The exits are patched**, each with its own distance. -/
theorem lays_exits (n : Nat) (q : List U32) : ∀ (ts : List GuestInsn) (p : List U32),
    (∀ t ∈ ts, verdict t.insn = .compiled) →
    Lays o (p ++ (bodyAt h (o + p.length) ts ++ q))
      (patchFixups (o + p.length + bodyWords h ts + n) (exitsAt h (o + p.length) ts)) () (p ++ (body h n ts ++ q))
  | [], p, _ => lays_pure ()
  | t :: ts, p, hts => by
    have hv := hts t List.mem_cons_self
    have hts' : ∀ t' ∈ ts, verdict t'.insn = .compiled := fun t' ht' => hts t' (List.mem_cons_of_mem _ ht')
    let word := cbnzWord (exitDist h t (bodyWords h ts + n))
    let p1 := p ++ (insnCode h t word ++ [countWord])
    have hlen : o + p1.length = o + p.length + (insnWords h t + 1) := by
      show o + (p ++ (insnCode h t word ++ [countWord])).length = _
      rw [List.length_append, List.length_append, insnCode_length hv]
      simp only [List.length_cons, List.length_nil]
      omega
    have hrest := lays_exits n q ts p1 hts'
    rw [hlen] at hrest
    have hepi : o + p.length + bodyWords h (t :: ts) + n = o + p.length + (insnWords h t + 1) + bodyWords h ts + n := by
      rw [bodyWords_cons]
      omega
    have hvs : p1 ++ (body h n ts ++ q) = p ++ (body h n (t :: ts) ++ q) := by
      show p ++ (insnCode h t word ++ [countWord]) ++ (body h n ts ++ q) = p ++ (insnCode h t word ++ countWord :: _ ++ q)
      simp only [List.append_assoc, List.cons_append, List.nil_append]
    rw [hvs] at hrest
    rw [hepi]
    have hws : p ++ (insnCode h t word ++ countWord :: bodyAt h (o + p.length + (insnWords h t + 1)) ts ++ q) =
        p1 ++ (bodyAt h (o + p.length + (insnWords h t + 1)) ts ++ q) := by
      show _ = p ++ (insnCode h t word ++ [countWord]) ++ _
      simp only [List.append_assoc, List.cons_append, List.nil_append]
    unfold bodyAt exitsAt
    cases he : exitOf h t with
    | none =>
      rw [insnCode_none he _ word, hws]
      exact hrest
    | some e =>
      obtain ⟨a, b, rfl, hsplit⟩ := insnCode_split he
      have hdist : o + p.length + (insnWords h t + 1) + bodyWords h ts + n - (o + (p.length + a.length)) =
          exitDist h t (bodyWords h ts + n) := by
        have hlt := exitOf_lt he
        unfold exitDist
        rw [he, Option.getD_some]
        omega
      have hset : (p ++ (insnCode h t (sentinel h (o + p.length) t) ++
          countWord :: bodyAt h (o + p.length + (insnWords h t + 1)) ts ++ q)).set (p.length + a.length) word =
          p1 ++ (bodyAt h (o + p.length + (insnWords h t + 1)) ts ++ q) := by
        rw [← hws, hsplit, hsplit]
        simp
      have hat : (p ++ (insnCode h t (sentinel h (o + p.length) t) ++
          countWord :: bodyAt h (o + p.length + (insnWords h t + 1)) ts ++ q))[p.length + a.length]? =
          some (BitVec.ofNat 32 (o + (p.length + a.length))) := by
        rw [hsplit]
        unfold sentinel
        rw [he, Option.getD_some, Nat.add_assoc]
        simp
      show Lays o _ (patchFixups _ ((o + p.length + a.length) :: _)) () _
      rw [Nat.add_assoc o p.length a.length]
      refine lays_patchFixup hat ?_
      rw [hdist, hset]
      exact hrest

end Body

/-! ## Jumps -/

section Jumps

def IsB (w : U32) : Prop := w &&& 0xFC000000 = 0x14000000

instance (w : U32) : Decidable (IsB w) := by unfold IsB; infer_instance

/-- The words from word `p` on, the jumps to the dummy epilogue redirected. -/
def redirected (dummyEpi epiOff : Nat) : Nat → List U32 → List U32
  | _, [] => []
  | p, w :: ws =>
    (if IsB w ∧ jumpTarget p w = BitVec.ofNat 32 dummyEpi then bWord (epiOff - p) else w) :: redirected dummyEpi epiOff (p + 1) ws

variable {dummyEpi epiOff o : Nat}

theorem lays_patchJumps (q : List U32) : ∀ (ws p : List U32), Lays o (p ++ (ws ++ q))
    (patchJumps dummyEpi epiOff ws.length (o + p.length)) () (p ++ (redirected dummyEpi epiOff (o + p.length) ws ++ q))
  | [], p => lays_pure ()
  | w :: ws, p => by
    have hstep : ∀ v : U32, Lays o (p ++ (v :: (ws ++ q))) (patchJumps dummyEpi epiOff ws.length (o + p.length + 1)) ()
        (p ++ (v :: (redirected dummyEpi epiOff (o + p.length + 1) ws ++ q))) := by
      intro v
      have hrest := lays_patchJumps q ws (p ++ [v])
      simp only [List.append_assoc, List.length_append, List.length_cons, List.length_nil, List.cons_append,
        List.nil_append] at hrest
      exact hrest
    have hgrows : (p ++ (w :: ws ++ q)).length ≤
        (p ++ (redirected dummyEpi epiOff (o + p.length) (w :: ws) ++ q)).length := by
      have hle := (hstep w).grows
      simpa [redirected] using hle
    refine ⟨hgrows, fun j pre hj hroom => ?_⟩
    have hget : j.code_buf.getD (o + p.length) 0 = w := HoldsFrom.getD hj (by simp)
    by_cases hb : IsB w ∧ jumpTarget (o + p.length) w = BitVec.ofNat 32 dummyEpi
    · have hrun : patchJumps dummyEpi epiOff (w :: ws).length (o + p.length) j =
          (patch (o + p.length) (bWord (epiOff - (o + p.length))) >>= fun _ =>
            patchJumps dummyEpi epiOff ws.length (o + p.length + 1)) j := by
        show (if j.code_buf.getD (o + p.length) 0 &&& 0xFC000000 = 0x14000000 ∧ _ then _ else _ : Emit Unit) j = _
        rw [hget]
        exact congrFun (if_pos hb) j
      have hpatch : Lays o (p ++ (w :: ws ++ q)) (patch (o + p.length) (bWord (epiOff - (o + p.length)))) () _ :=
        lays_patch (by simp) _
      have hset : (p ++ (w :: ws ++ q)).set p.length (bWord (epiOff - (o + p.length))) =
          p ++ (bWord (epiOff - (o + p.length)) :: (ws ++ q)) := by simp
      rw [hset] at hpatch
      unfold redirected at hroom ⊢
      rw [if_pos hb] at hroom ⊢
      rw [hrun]
      exact (hpatch.bind (hstep _)).run j pre hj hroom
    · have hrun : patchJumps dummyEpi epiOff (w :: ws).length (o + p.length) j =
          patchJumps dummyEpi epiOff ws.length (o + p.length + 1) j := by
        show (if j.code_buf.getD (o + p.length) 0 &&& 0xFC000000 = 0x14000000 ∧ _ then _ else _ : Emit Unit) j = _
        rw [hget]
        exact congrFun (if_neg hb) j
      unfold redirected at hroom ⊢
      rw [if_neg hb] at hroom ⊢
      rw [hrun]
      exact (hstep w).run j pre hj hroom

theorem redirected_append (ws vs : List U32) : ∀ p : Nat, redirected dummyEpi epiOff p (ws ++ vs) =
    redirected dummyEpi epiOff p ws ++ redirected dummyEpi epiOff (p + ws.length) vs := by
  induction ws with
  | nil => exact fun _ => rfl
  | cons w ws ih =>
    intro p
    rw [List.cons_append, redirected, ih, redirected, List.length_cons, List.cons_append, Nat.add_assoc p 1, Nat.add_comm 1]

theorem redirected_others : ∀ (ws : List U32) (p : Nat), (∀ w ∈ ws, ¬ IsB w) → redirected dummyEpi epiOff p ws = ws
  | [], _, _ => rfl
  | w :: ws, p, h => by
    have hw := h w List.mem_cons_self
    rw [redirected, if_neg fun hb => hw hb.1, redirected_others ws _ fun v hv => h v (List.mem_cons_of_mem _ hv)]

theorem not_isB {w : U32} (h : (w.extractLsb' 22 10).toNat / 16 ≠ 5) : ¬ IsB w := by
  intro hb
  have hfield : (w &&& 0xFC000000).extractLsb' 26 6 = w.extractLsb' 26 6 := by
    have hones : (0xFC000000 : U32).extractLsb' 26 6 = BitVec.allOnes 6 := by decide
    rw [BitVec.extractLsb'_and, hones, BitVec.and_allOnes]
  have htop : w.extractLsb' 26 6 = (5 : BitVec 6) := by
    rw [← hfield, show w &&& 0xFC000000 = 0x14000000 from hb]
    decide
  have hnat := congrArg BitVec.toNat htop
  rw [BitVec.extractLsb'_toNat, Nat.shiftRight_eq_div_pow] at hnat h
  have hlt := w.isLt
  have h5 : (5 : BitVec 6).toNat = 5 := rfl
  omega

theorem movImm_others (r : A64.Reg) (imm : U64) : ∀ w ∈ movImm (r.setWidth 32) imm, ¬ IsB w := by
  have hmov : ∀ {op : U32} {code : Nat} (s : Fin 4) (c : U16), MovFields op code → code / 16 ≠ 5 → code % 16 < 14 →
      ¬ IsB (op ||| BitVec.ofNat 32 s <<< 21 ||| c.setWidth 32 <<< 5 ||| r.setWidth 32) := by
    intro op code s c hfields hne hlow
    have hcode := (movFields_word hfields s c r rfl).1
    have hs := s.isLt
    refine not_isB ?_
    rw [hcode]
    omega
  have hloop : ∀ (l : List Nat) (first : Bool), (∀ s ∈ l, s < 4) → ∀ w ∈ movLoop (r.setWidth 32) imm l first, ¬ IsB w := by
    intro l
    induction l with
    | nil => exact fun _ _ w hw => absurd hw List.not_mem_nil
    | cons s rest ih =>
      intro first hl w hw
      have hs : s < 4 := hl s List.mem_cons_self
      have hrest : ∀ s' ∈ rest, s' < 4 := fun s' hs' => hl s' (List.mem_cons_of_mem _ hs')
      unfold movLoop at hw
      split at hw
      · rcases List.mem_cons.1 hw with rfl | hw
        · cases first with
          | true => exact hmov ⟨s, hs⟩ _ movz_fields (by decide) (by decide)
          | false => exact hmov ⟨s, hs⟩ _ movk_fields (by decide) (by decide)
        · exact ih false hrest w hw
      · exact ih first hrest w hw
  exact hloop [0, 1, 2, 3] true (by decide)

end Jumps

/-! ## Branches -/

section Branch

/-- The words of a branch, with the jumps `b` and `b'` to the epilogue. -/
def branchWith (b b' : U32) (t : GuestInsn) : List U32 :=
  let compare := loadGuest 0 (rs1 t.insn) ++ (loadGuest 1 (rs2 t.insn) ++ [cmpWord 0 1])
  match branchCond (funct3 t.insn) with
  | none => compare
  | some cond =>
    compare ++ (bcondWord cond (movWords (t.pc + t.size) + 3) ::
      (sideWords (t.pc + t.size) b ++ sideWords (t.pc + immB t.insn) b'))

theorem branchCode_eq (t : GuestInsn) :
    branchCode t = branchWith (bWord (movWords (t.pc + immB t.insn) + 3)) (bWord 1) t := rfl

theorem emitB_dist : ∀ d : Fin 64,
    (0x14000000 ||| ((BitVec.ofNat 32 d * 4 : U32).sdiv 4 &&& 0x3FFFFFF) : U32) = bWord d := by decide

variable {o : Nat} {ws : List U32}

theorem lays_side (target : U64) {epi d : Nat} (hd : d < 64) (hepi : epi = o + ws.length + (movWords target + 1) + d) :
    Lays o ws (emitSide target epi) () (ws ++ sideWords target (bWord d)) := by
  have hlays : Lays o ws (emitSide target epi) _ _ :=
    (emits_movImm64 0 target).lays.bind <| (emits_emit _).lays.bind <| lays_codeOff.bind (emits_emit _).lays
  refine hlays.congr rfl ?_
  have hoff : o + (ws ++ movImm 0 target ++ [strXWord 0 cpuReg offPc]).length + d = epi := by
    rw [List.length_append, List.length_append, movImm_length, hepi]
    simp only [List.length_cons, List.length_nil]
    omega
  have hdist : (distBytes epi (o + (ws ++ movImm 0 target ++ [strXWord 0 cpuReg offPc]).length)) = BitVec.ofNat 32 d * 4 := by
    unfold distBytes
    rw [← hoff, BitVec.ofNat_add, BitVec.add_comm, BitVec.add_sub_cancel]
  rw [hdist, emitB_dist ⟨d, hd⟩]
  simp [sideWords]

theorem compareWords_length (t : GuestInsn) :
    (loadGuest 0 (rs1 t.insn) ++ (loadGuest 1 (rs2 t.insn) ++ [cmpWord 0 1])).length = 3 := by
  rw [List.length_append, List.length_append, loadGuest_length, loadGuest_length]
  rfl

theorem branchWith_length (b b' : U32) (t : GuestInsn) : (branchWith b b' t).length = branchWords t.insn t.pc t.size := by
  have hcompare := compareWords_length t
  unfold branchWith branchWords
  cases branchCond (funct3 t.insn) with
  | none => exact hcompare
  | some cond =>
    dsimp only
    rw [List.length_append, hcompare, List.length_cons, List.length_append, sideWords_length, sideWords_length]
    omega

/-- **A branch leaves its words**, with jumps to an epilogue 50 words on. -/
theorem lays_branch (t : GuestInsn) :
    Lays o ws (jitBranch t.insn (rs1 t.insn) (rs2 t.insn) (funct3 t.insn) t.pc t.size (o + ws.length + 50))
      (branchCond (funct3 t.insn)).isSome
      (ws ++ branchWith (bWord (45 - movWords (t.pc + t.size)))
        (bWord (43 - movWords (t.pc + t.size) - movWords (t.pc + immB t.insn))) t) := by
  have hcompare := compareWords_length t
  have hnext := movWords_le (t.pc + t.size)
  have htarget := movWords_le (t.pc + immB t.insn)
  have hload : ∀ {m : Emit Bool} {a : Bool} {vs : List U32},
      Lays o (ws ++ (loadGuest 0 (rs1 t.insn) ++ (loadGuest 1 (rs2 t.insn) ++ [cmpWord 0 1]))) m a vs →
      Lays o ws (do emitLoadGuest 0 (rs1 t.insn); emitLoadGuest 1 (rs2 t.insn); emitCmp 0 1; m) a vs := by
    intro m a vs hm
    rw [← List.append_assoc, ← List.append_assoc] at hm
    exact (emits_loadGuest 0 _).lays.bind <| (emits_loadGuest 1 _).lays.bind <| (emits_emit _).lays.bind hm
  unfold jitBranch branchWith
  cases hcond : branchCond (funct3 t.insn) with
  | none => exact hload (lays_pure _)
  | some cond =>
    refine hload ?_
    let first := ws ++ (loadGuest 0 (rs1 t.insn) ++ (loadGuest 1 (rs2 t.insn) ++ [cmpWord 0 1]))
    have hfirst : first.length = ws.length + 3 := by
      show (ws ++ _).length = _
      rw [List.length_append, hcompare]
    let b := bWord (45 - movWords (t.pc + t.size))
    refine lays_hole.bind ?_
    refine (lays_side (t.pc + t.size) (d := 45 - movWords (t.pc + t.size)) (by omega) ?_).bind ?_
    · rw [List.length_append, hfirst]
      simp only [List.length_cons, List.length_nil]
      omega
    · refine lays_codeOff.bind ?_
      have hdist : o + (first ++ [0] ++ sideWords (t.pc + t.size) b).length - (o + first.length) = movWords (t.pc + t.size) + 3 := by
        rw [List.length_append, List.length_append, sideWords_length]
        simp only [List.length_cons, List.length_nil]
        omega
      rw [hdist]
      refine Lays.bind (lays_patch (by simp only [List.length_append, List.length_cons]; omega) _) ?_
      have hset : (first ++ [0] ++ sideWords (t.pc + t.size) b).set first.length
          (bcondWord cond (movWords (t.pc + t.size) + 3)) =
          first ++ (bcondWord cond (movWords (t.pc + t.size) + 3) :: sideWords (t.pc + t.size) b) := by simp
      rw [hset]
      refine (lays_side (t.pc + immB t.insn)
        (d := 43 - movWords (t.pc + t.size) - movWords (t.pc + immB t.insn)) (by omega) ?_).bind ?_
      · rw [List.length_append, hfirst, List.length_cons, sideWords_length]
        omega
      · refine (lays_pure true).congr rfl ?_
        show ws ++ _ ++ _ ++ _ = _
        simp only [List.append_assoc, List.cons_append]
        rfl

theorem bWord_isB : ∀ d : Fin 64, IsB (bWord d) ∧ (bWord d <<< 6).sshiftRight 6 = BitVec.ofNat 32 d := by decide

theorem strPc_other : ¬ IsB (strXWord 0 cpuReg offPc) := by decide

theorem ldr_other : ∀ i : BitVec 5, ¬ IsB (ldrXWord 0 cpuReg (xoff i)) ∧ ¬ IsB (ldrXWord 1 cpuReg (xoff i)) := by decide

theorem bcond_other : ∀ (cond : BitVec 4) (d : Fin 8), ¬ IsB (bcondWord (cond.setWidth 32) d) := by decide

theorem loadGuest_others {r : A64.Reg} (hr : r = 0 ∨ r = 1) (i : BitVec 5) : ∀ w ∈ loadGuest (r.setWidth 32) i, ¬ IsB w := by
  unfold loadGuest
  split
  · exact movImm_others r 0
  · intro w hw
    rw [List.mem_singleton.1 hw]
    rcases hr with rfl | rfl
    · exact (ldr_other i).1
    · exact (ldr_other i).2

theorem compareWords_others (t : GuestInsn) :
    ∀ w ∈ loadGuest 0 (rs1 t.insn) ++ (loadGuest 1 (rs2 t.insn) ++ [cmpWord 0 1]), ¬ IsB w := by
  have hcmp : ¬ IsB (cmpWord 0 1) := by decide
  intro w hw
  rcases List.mem_append.1 hw with hw | hw
  · exact loadGuest_others (r := 0) (.inl rfl) _ w hw
  · rcases List.mem_append.1 hw with hw | hw
    · exact loadGuest_others (r := 1) (.inr rfl) _ w hw
    · rw [List.mem_singleton.1 hw]
      exact hcmp

theorem redirected_side (target : U64) {dummyEpi epiOff p d : Nat} (hd : d < 64)
    (hdummy : p + (movWords target + 1) + d = dummyEpi) :
    redirected dummyEpi epiOff p (sideWords target (bWord d)) =
      sideWords target (bWord (epiOff - (p + (movWords target + 1)))) := by
  obtain ⟨hb, hdist⟩ := bWord_isB ⟨d, hd⟩
  have hjump : jumpTarget (p + (movWords target + 1)) (bWord d) = BitVec.ofNat 32 dummyEpi := by
    unfold jumpTarget
    rw [hdist, ← hdummy, BitVec.ofNat_add (p + (movWords target + 1)) d]
  have hpre : ∀ w ∈ movImm 0 target ++ [strXWord 0 cpuReg offPc], ¬ IsB w := by
    intro w hw
    rcases List.mem_append.1 hw with hw | hw
    · exact movImm_others 0 target w hw
    · rw [List.mem_singleton.1 hw]
      exact strPc_other
  have hlen : (movImm 0 target ++ [strXWord 0 cpuReg offPc]).length = movWords target + 1 := by
    rw [List.length_append, movImm_length]
    rfl
  have hsplit : ∀ b, sideWords target b = movImm 0 target ++ [strXWord 0 cpuReg offPc] ++ [b] := by simp [sideWords]
  rw [hsplit, hsplit, redirected_append, redirected_others _ _ hpre, hlen, redirected, if_pos ⟨hb, hjump⟩]
  rfl

/-- **The jumps of a branch are redirected** to the epilogue, right behind it. -/
theorem redirected_branch (t : GuestInsn) (start : Nat) :
    redirected (start + 50) (start + branchWords t.insn t.pc t.size) start
      (branchWith (bWord (45 - movWords (t.pc + t.size)))
        (bWord (43 - movWords (t.pc + t.size) - movWords (t.pc + immB t.insn))) t) = branchCode t := by
  have hothers := compareWords_others t
  have hlen := compareWords_length t
  have hnext := movWords_le (t.pc + t.size)
  have htarget := movWords_le (t.pc + immB t.insn)
  rw [branchCode_eq]
  unfold branchWith branchWords
  rcases branchCond_holds (funct3 t.insn) with ⟨hnone, -⟩ | ⟨cond, hsome, -⟩
  · rw [hnone]
    exact redirected_others _ _ hothers
  · rw [hsome]
    dsimp only
    have hbcond := bcond_other cond ⟨movWords (t.pc + t.size) + 3, by omega⟩
    rw [redirected_append, redirected_others _ _ hothers, hlen, redirected, if_neg fun hb => hbcond hb.1, redirected_append,
      redirected_side _ (by omega) (by omega), sideWords_length, redirected_side _ (by omega) (by omega)]
    have h1 : start + (movWords (t.pc + t.size) + movWords (t.pc + immB t.insn) + 8) -
        (start + 3 + 1 + (movWords (t.pc + t.size) + 1)) = movWords (t.pc + immB t.insn) + 3 := by omega
    have h2 : start + (movWords (t.pc + t.size) + movWords (t.pc + immB t.insn) + 8) -
        (start + 3 + 1 + (movWords (t.pc + t.size) + 2) + (movWords (t.pc + immB t.insn) + 1)) = 1 := by omega
    rw [h1, h2]

end Branch

/-! ## The block -/

def prologueCode : List U32 := [0xA9BD7BF3, 0xA90157F4, movWord cpuReg 0, movzWWord 21 0]

/-- One counter, at `off` from the register `rn`. -/
def counterCode (rn off : U32) : List U32 := [ldrXWord 0 rn off, addWord 0 0 21, strXWord 0 rn off]

def returnCode : List U32 :=
  counterCode cpuReg offInstret ++ (counterCode cpuReg offCycle ++
    (movImm 2 (BitVec.ofNat 64 CpuLayout.offExec) ++ (addWord 2 cpuReg 2 :: (counterCode 2 0 ++
      [movWord 0 21, 0xA94157F4, 0xA8C37BF3, 0xD65F03C0]))))

theorem emits_prologue : Emits emitPrologue prologueCode () :=
  (emits_emit _).bind <| (emits_emit _).bind <| (emits_emit _).bind (emits_emit _)

theorem emits_return : Emits emitReturn returnCode () := by
  have h : Emits emitReturn _ () := (emits_emit _).bind <| (emits_emit _).bind <| (emits_emit _).bind <|
    (emits_emit _).bind <| (emits_emit _).bind <| (emits_emit _).bind <| (emits_movImm64 2 _).bind <| (emits_emit _).bind <|
    (emits_emit _).bind <| (emits_emit _).bind <| (emits_emit _).bind <| (emits_emit _).bind <| (emits_emit _).bind <|
    (emits_emit _).bind <| emits_emit _
  exact h

section Block

variable [NetDevice]

/-- What stands between the instructions and the epilogue; a branch is fetched a second time. -/
def tailCode (h : Helpers) (c : Cpu) : Stop → List U32
  | .ahead pc => movImm 0 pc ++ [strXWord 0 cpuReg offPc]
  | .cannot t => plainCode h t ++ (movImm 0 t.pc ++ [strXWord 0 cpuReg offPc])
  | .jumped => []
  | .branch pc =>
    match (jitFetchInsn pc c).1 with
    | none => []
    | some (raw, compressed) => countWord :: branchCode ⟨pc, expand raw compressed, insnBytes compressed⟩

/-- **The words of the block at `pc`**, wherever they are. -/
def blockCode (h : Helpers) (pc : U64) (c : Cpu) : List U32 :=
  let r := scan jitMaxBlockInsns pc c
  let tail := tailCode h r.2.2 r.2.1
  prologueCode ++ (body h tail.length r.1 ++ (tail ++ returnCode))

variable {h : Helpers} {o : Nat}

omit [NetDevice] in
theorem leaves_epilogue {ws : List U32} : Leaves o ws emitEpilogue (· = o + ws.length) (ws ++ returnCode) := by
  have hlays : Lays o ws emitEpilogue (o + ws.length) _ := lays_codeOff.bind <| emits_return.lays.bind (lays_pure _)
  exact hlays.leaves rfl

/-- The epilogue, and the exits patched: `p` is before the instructions, `q` behind them. -/
theorem leaves_finishBlock {k : Compile} {p q : List U32} {ts : List GuestInsn} (hts : ∀ t ∈ ts, verdict t.insn = .compiled)
    (hfix : k.fixups = exitsAt h (o + p.length) ts) :
    Leaves o (p ++ (bodyAt h (o + p.length) ts ++ q)) (finishBlock k) (fun _ => True)
      (p ++ (body h q.length ts ++ (q ++ returnCode))) := by
  refine leaves_epilogue.bind ?_
  rintro _ rfl
  have hexits := lays_exits (h := h) (o := o) q.length (q ++ returnCode) ts p hts
  have hepi : o + (p ++ (bodyAt h (o + p.length) ts ++ q)).length = o + p.length + bodyWords h ts + q.length := by
    rw [List.length_append, List.length_append, bodyAt_length _ _ hts]
    omega
  rw [hepi, hfix, List.append_assoc, List.append_assoc]
  exact hexits.leaves trivial

/-- The branch at the end, counted. -/
theorem leaves_finishBranch {k : Compile} {p : List U32} {ts : List GuestInsn} {raw : U32} {compressed : Bool}
    (hts : ∀ t ∈ ts, verdict t.insn = .compiled) (hfix : k.fixups = exitsAt h (o + p.length) ts) :
    let q := countWord :: branchCode ⟨k.last_pc, expand raw compressed, insnBytes compressed⟩
    Leaves o (p ++ bodyAt h (o + p.length) ts) (finishBranch k raw compressed) (fun _ => True)
      (p ++ (body h q.length ts ++ (q ++ returnCode))) := by
  intro q
  let t : GuestInsn := ⟨k.last_pc, expand raw compressed, insnBytes compressed⟩
  let raws := branchWith (bWord (45 - movWords (t.pc + t.size)))
    (bWord (43 - movWords (t.pc + t.size) - movWords (t.pc + immB t.insn))) t
  let before := p ++ bodyAt h (o + p.length) ts ++ [countWord]
  have hraws : raws.length = branchWords t.insn t.pc t.size := branchWith_length ..
  have hbefore : before.length = p.length + bodyWords h ts + 1 := by
    show (p ++ bodyAt h (o + p.length) ts ++ [countWord]).length = _
    rw [List.length_append, List.length_append, bodyAt_length _ _ hts]
    rfl
  have hq : q.length = 1 + raws.length := by
    show (countWord :: branchCode t).length = _
    rw [List.length_cons, branchCode_eq, branchWith_length, hraws, Nat.add_comm]
  have hjumps : Lays o _ (patchJumps (o + before.length + 50) (o + (before ++ raws).length) _ _) () _ :=
    lays_patchJumps returnCode raws before
  have hepi : o + (before ++ raws).length = o + before.length + branchWords t.insn t.pc t.size := by
    rw [List.length_append, hraws, Nat.add_assoc]
  rw [hepi, redirected_branch] at hjumps
  have hexits := lays_exits (h := h) (o := o) q.length (q ++ returnCode) ts p hts
  have hwords : p ++ (bodyAt h (o + p.length) ts ++ (q ++ returnCode)) = before ++ (branchCode t ++ returnCode) := by
    show p ++ (bodyAt h (o + p.length) ts ++ (countWord :: branchCode t ++ returnCode)) =
      p ++ bodyAt h (o + p.length) ts ++ [countWord] ++ (branchCode t ++ returnCode)
    simp only [List.append_assoc, List.cons_append, List.nil_append]
  have hend : o + p.length + bodyWords h ts + q.length = o + before.length + branchWords t.insn t.pc t.size := by
    rw [hq, hbefore, hraws]
    omega
  rw [hwords, hend] at hexits
  unfold finishBranch
  refine ((emits_emit countWord).lays.leaves (R := fun _ => True) trivial).bind fun _ _ => ?_
  refine (lays_codeOff.leaves (R := (· = o + before.length)) rfl).bind ?_
  rintro _ rfl
  refine ((lays_branch t).leaves (R := fun _ => True) trivial).bind fun _ _ => ?_
  refine leaves_epilogue.bind ?_
  rintro _ rfl
  have hcount : o + (before ++ raws).length - (o + before.length) = raws.length := by
    rw [List.length_append]
    omega
  have hassoc : before ++ raws ++ returnCode = before ++ (raws ++ returnCode) := List.append_assoc ..
  show Leaves o (before ++ raws ++ returnCode) (patchJumps _ (o + (before ++ raws).length)
    (o + (before ++ raws).length - (o + before.length)) _ >>= fun _ => patchFixups (o + (before ++ raws).length) k.fixups) _ _
  rw [hcount, hepi, hassoc, hfix]
  exact (hjumps.bind hexits).leaves trivial

/-- **What follows the last instruction** makes of the body that of a finished block. -/
theorem leaves_finish {k : Compile} {count : Nat} {stop : Stop} {p : List U32} {ts : List GuestInsn} (c : Cpu)
    (hk : Reached k count stop) (hts : ∀ t ∈ ts, verdict t.insn = .compiled) (hfix : k.fixups = exitsAt h (o + p.length) ts) :
    Leaves o (p ++ (bodyAt h (o + p.length) ts ++ lostCode h stop)) (finish k c) (fun _ => True)
      (p ++ (body h (tailCode h c stop).length ts ++ (tailCode h c stop ++ returnCode))) := by
  have hplain : ∀ {q : List U32} (c : Cpu), Leaves o (p ++ (bodyAt h (o + p.length) ts ++ q)) (do finishBlock k; return c)
      (fun _ => True) (p ++ (body h q.length ts ++ (q ++ returnCode))) := fun c =>
    (leaves_finishBlock hts hfix).bind fun _ _ => leaves_pure trivial
  have hahead : ∀ {q : List U32}, k.block_ended = false →
      Leaves o (p ++ (bodyAt h (o + p.length) ts ++ q)) (finish k c) (fun _ => True)
        (p ++ (body h (q ++ (movImm 0 k.pc ++ [strXWord 0 cpuReg offPc])).length ts ++
          (q ++ (movImm 0 k.pc ++ [strXWord 0 cpuReg offPc]) ++ returnCode))) := by
    intro q hgoes
    unfold finish
    rw [hgoes]
    have hwords : p ++ (bodyAt h (o + p.length) ts ++ q) ++ movImm 0 k.pc ++ [strXWord 0 cpuReg offPc] =
        p ++ (bodyAt h (o + p.length) ts ++ (q ++ (movImm 0 k.pc ++ [strXWord 0 cpuReg offPc]))) := by
      simp only [List.append_assoc]
    refine ((emits_movImm64 0 k.pc).lays.leaves (R := fun _ => True) trivial).bind fun _ _ => ?_
    refine ((emits_emit _).lays.leaves (R := fun _ => True) trivial).bind fun _ _ => ?_
    rw [hwords]
    exact hplain c
  cases stop with
  | ahead pc =>
    obtain ⟨-, hgoes, rfl⟩ := hk
    exact hahead hgoes
  | cannot t =>
    obtain ⟨-, hgoes, hpc⟩ := hk
    have h := hahead (q := plainCode h t) hgoes
    rw [hpc] at h
    exact h
  | jumped =>
    obtain ⟨-, hended, hop⟩ := hk
    unfold finish
    rw [hended]
    show Leaves o _ (if true = true ∧ k.last_opcode = 0x63 then _ else _) _ _
    rw [if_neg fun hbranch => hop hbranch.2]
    exact hplain c
  | branch pc =>
    obtain ⟨-, hended, hop, rfl⟩ := hk
    unfold finish tailCode
    rw [hended]
    show Leaves o _ (if true = true ∧ k.last_opcode = 0x63 then _ else _) _ _
    rw [if_pos ⟨rfl, hop⟩]
    dsimp only
    generalize jitFetchInsn k.last_pc c = fetched
    obtain ⟨_ | ⟨raw, compressed⟩, c'⟩ := fetched
    · exact hplain c'
    · have hbranch : Leaves o _ (finishBranch k raw compressed) _ _ := leaves_finishBranch (h := h) (p := p) hts hfix
      rw [show bodyAt h (o + p.length) ts ++ lostCode h (.branch k.last_pc) = bodyAt h (o + p.length) ts from
        List.append_nil _]
      exact hbranch.bind fun _ _ => leaves_pure trivial

theorem scan_refused : ∀ (n : Nat) (pc : U64) (c : Cpu) (t : GuestInsn), (scan n pc c).2.1 = .cannot t →
    verdict t.insn = .cannot
  | 0, _, _, t, ht => by cases ht
  | n + 1, pc, c, t, ht => by
    unfold scan at ht
    generalize jitFetchInsn pc c = fetched at ht
    obtain ⟨_ | ⟨raw, compressed⟩, c'⟩ := fetched
    · cases ht
    · dsimp only at ht
      generalize expand raw compressed = insn at ht
      by_cases h0 : compressed = true ∧ insn = 0
      · rw [if_pos h0] at ht
        cases ht
      · rw [if_neg h0] at ht
        cases hv : verdict insn with
        | deferred =>
          rw [hv] at ht
          cases ht
        | cannot =>
          rw [hv] at ht
          cases ht
          exact hv
        | compiled =>
          rw [hv] at ht
          dsimp only at ht
          by_cases he : endsBlock insn = true
          · rw [if_pos he] at ht
            cases ht
          · rw [if_neg he] at ht
            exact scan_refused n _ c' t ht

omit [NetDevice] in
theorem returnCode_length : returnCode.length = epilogueWords := by
  have hoff : movWords (BitVec.ofNat 64 CpuLayout.offExec) = 2 := by decide +kernel
  unfold returnCode counterCode
  simp only [List.length_append, List.length_cons, List.length_nil, movImm_length, hoff]
  rfl

theorem lostCode_length {stop : Stop} (hstop : ∀ t, stop = .cannot t → verdict t.insn = .cannot) :
    (lostCode h stop).length = lostWords h stop := by
  cases stop with
  | cannot t =>
    have hemit := (refused h (Compile.start t.pc) t.size (hstop t rfl)).1
    exact (insn_words hemit).1.symm
  | ahead _ | jumped | branch _ => rfl

theorem tailCode_length (c : Cpu) {stop : Stop} (hstop : ∀ t, stop = .cannot t → verdict t.insn = .cannot) :
    (tailCode h c stop).length + epilogueWords = lostWords h stop + finishWords c stop := by
  unfold tailCode lostWords finishWords
  cases stop with
  | ahead pc =>
    simp only [List.length_append, movImm_length, List.length_cons, List.length_nil]
    omega
  | cannot t =>
    have hemit := (refused h (Compile.start t.pc) t.size (hstop t rfl)).1
    have hlen : insnWords h t = (plainCode h t).length := (insn_words hemit).1
    simp only [List.length_append, movImm_length, List.length_cons, List.length_nil]
    omega
  | jumped => rfl
  | branch pc =>
    dsimp only
    rcases (jitFetchInsn pc c).1 with _ | ⟨raw, compressed⟩
    · rfl
    · dsimp only
      rw [List.length_cons, branchCode_eq, branchWith_length]
      dsimp only
      omega

/-- How many instructions the block at `pc` counts. -/
def blockInsns (pc : U64) (c : Cpu) : Nat :=
  let r := scan jitMaxBlockInsns pc c
  r.1.length + r.2.1.branches

theorem blockCode_length {pc : U64} {c : Cpu} (hcount : blockInsns pc c ≠ 0) :
    (blockCode h pc c).length = blockWords h pc c := by
  have hts := scan_compiled jitMaxBlockInsns pc c
  have htail := tailCode_length (h := h) (scan jitMaxBlockInsns pc c).2.2 (scan_refused jitMaxBlockInsns pc c)
  unfold blockInsns at hcount
  unfold blockCode blockWords
  dsimp only at hcount ⊢
  rw [if_neg hcount, List.length_append, List.length_append, List.length_append, body_length _ _ hts, returnCode_length]
  have hpro : prologueCode.length = 4 := rfl
  omega

theorem leaves_body {pc : U64} {c : Cpu} (hroom : o + 4 + bodyWords h (scan jitMaxBlockInsns pc c).1 ≤ 2 ^ 24) :
    let r := scan jitMaxBlockInsns pc c
    Leaves o [] (compileBody h pc c) (fun a => a.1.fixups = exitsAt h (o + 4) r.1)
      (prologueCode ++ (bodyAt h (o + 4) r.1 ++ lostCode h r.2.1)) := by
  intro r
  have hprologue : Leaves o [] emitPrologue (fun _ => True) ([] ++ prologueCode) := emits_prologue.leaves trivial
  refine hprologue.bind fun _ _ => ?_
  exact leaves_loop jitMaxBlockInsns (.start pc) c prologueCode rfl (Nat.le_of_eq (Nat.zero_add _)) hroom

/-- **Where there is room, the compiler leaves the words of the block**, the same at every place in every buffer. -/
theorem jitCompileBlock_code {h : Helpers} {pc : U64} {c : Cpu} {j : CodeBuf} (hcap : maxNeeded ≤ j.code_capacity)
    (hmax : j.code_capacity ≤ jitCapacity) (hroom : (reserve j).2.code_off + blockWords h pc c ≤ j.code_capacity)
    (hcount : blockInsns pc c ≠ 0) :
    let start := (reserve j).2
    let r := jitCompileBlock h pc c j
    (∃ b, r.1.1 = some b ∧ b.guest_pc = pc ∧ b.host_code = start.code_off ∧ b.insn_count = blockInsns pc c) ∧
      r.2.code_buf = start.code_buf ++ blockCode h pc c := by
  intro start r
  have hlen := blockCode_length (h := h) hcount
  let b := scan jitMaxBlockInsns pc c
  let laid := prologueCode ++ (bodyAt h (start.code_off + 4) b.1 ++ lostCode h b.2.1)
  have hts : ∀ t ∈ b.1, verdict t.insn = .compiled := scan_compiled jitMaxBlockInsns pc c
  have hfull : start.code_off + (blockCode h pc c).length ≤ j.code_capacity := by
    rw [hlen]
    exact hroom
  have htail : lostWords h b.2.1 + finishWords b.2.2 b.2.1 = (tailCode h b.2.2 b.2.1).length + epilogueWords :=
    (tailCode_length b.2.2 (scan_refused jitMaxBlockInsns pc c)).symm
  have hcap' : start.code_capacity = j.code_capacity := (reserve_room hcap).2.1
  have hsplit : (blockCode h pc c).length = 4 + (bodyWords h b.1 + ((tailCode h b.2.2 b.2.1).length + epilogueWords)) := by
    show (prologueCode ++ (body h _ b.1 ++ (tailCode h b.2.2 b.2.1 ++ returnCode))).length = _
    rw [List.length_append, List.length_append, List.length_append, body_length _ _ hts, returnCode_length]
    rfl
  have hlaid : laid.length ≤ (blockCode h pc c).length := by
    have hlost := lostCode_length (h := h) (scan_refused jitMaxBlockInsns pc c)
    have hl : laid.length = 4 + (bodyWords h b.1 + lostWords h b.2.1) := by
      show (prologueCode ++ (bodyAt h _ b.1 ++ lostCode h b.2.1)).length = _
      rw [List.length_append, List.length_append, bodyAt_length _ _ hts, hlost]
      rfl
    omega
  have h24 : jitCapacity = 2 ^ 24 := rfl
  -- The instructions.
  have hbody : Leaves start.code_off [] (compileBody h pc c) _ laid := leaves_body (by
    show _ + bodyWords h b.1 ≤ _
    omega)
  have hstart : start.HoldsFrom start.code_off start.code_buf [] := ⟨rfl, (List.append_nil _).symm⟩
  obtain ⟨hfix, hheld, hcap1⟩ := hbody.run start start.code_buf hstart (by omega)
  obtain ⟨-, hc, hk⟩ := (writes_body h pc c : Writes j.code_capacity _ _ _) start hcap' (by omega)
  -- What follows them.
  have hfinish := leaves_finish (h := h) (o := start.code_off) (p := prologueCode) b.2.2 hk hts hfix
  obtain ⟨-, ⟨-, hbuf⟩, -⟩ := hfinish.run (compileBody h pc c start).2 start.code_buf hheld (by
    rw [hcap1, hcap']
    exact hfull)
  have hn0 : (compileBody h pc c start).1.1.insn_count ≠ 0 := by
    rw [hk.1]
    exact hcount
  have hrun : r = closeBlock pc start.code_off (compileBody h pc c start).1.1 (compileBody h pc c start).1.2
      (compileBody h pc c start).2 := jitCompileBlock_run h pc c j
  rw [hrun]
  unfold closeBlock
  rw [if_neg hn0, hc]
  exact ⟨⟨_, rfl, rfl, rfl, hk.1⟩, hbuf⟩

end Block

end Arm64
end PgLinux
