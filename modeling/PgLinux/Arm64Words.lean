import PgLinux.Arm64Emit
/-!
# Arm64Words — the words an emitter leaves behind

Code without jumps only appends (`Emits`).  Code that patches its jumps later is followed from the place it starts at, in
a buffer with room (`Lays`); how often it calls `emit` does not depend on the room (`Calls`).
-/
namespace PgLinux
namespace Arm64

variable {α β : Type}

/-! ## Code that only appends -/

def CodeBuf.pushAll (j : CodeBuf) (ws : List U32) : CodeBuf := ws.foldl CodeBuf.push j

/-- `m` appends the words `ws` and answers `a`. -/
def Emits (m : Emit α) (ws : List U32) (a : α) : Prop := ∀ j, m j = (a, j.pushAll ws)

theorem CodeBuf.pushAll_append (j : CodeBuf) (ws vs : List U32) : j.pushAll (ws ++ vs) = (j.pushAll ws).pushAll vs :=
  List.foldl_append

theorem emits_pure (a : α) : Emits (pure a) [] a := fun _ => rfl

theorem emits_emit (w : U32) : Emits (emit w) [w] () := fun _ => rfl

theorem Emits.bind {m : Emit α} {f : α → Emit β} {ws vs : List U32} {a : α} {b : β} (hm : Emits m ws a)
    (hf : Emits (f a) vs b) : Emits (m >>= f) (ws ++ vs) b := by
  intro j
  show f (m j).1 (m j).2 = _
  rw [hm j, hf, CodeBuf.pushAll_append]

theorem CodeBuf.push_calls (j : CodeBuf) (w : U32) : (j.push w).calls = j.calls + 1 := by
  unfold CodeBuf.push
  split <;> rfl

theorem CodeBuf.push_capacity (j : CodeBuf) (w : U32) : (j.push w).code_capacity = j.code_capacity := by
  unfold CodeBuf.push
  split <;> rfl

theorem CodeBuf.push_fits {j : CodeBuf} (w : U32) (h : j.code_off ≤ j.code_capacity) : (j.push w).code_off ≤ j.code_capacity := by
  unfold CodeBuf.push
  split
  · show (j.code_buf ++ [w]).length ≤ _
    rw [List.length_append]
    exact ‹j.code_off < j.code_capacity›
  · exact h

theorem CodeBuf.pushAll_calls : ∀ (ws : List U32) (j : CodeBuf), (j.pushAll ws).calls = j.calls + ws.length
  | [], _ => rfl
  | w :: ws, j => by
    show ((j.push w).pushAll ws).calls = _
    rw [CodeBuf.pushAll_calls ws, CodeBuf.push_calls, List.length_cons, Nat.add_assoc, Nat.add_comm 1]

theorem CodeBuf.pushAll_capacity : ∀ (ws : List U32) (j : CodeBuf), (j.pushAll ws).code_capacity = j.code_capacity
  | [], _ => rfl
  | w :: ws, j => (CodeBuf.pushAll_capacity ws (j.push w)).trans (j.push_capacity w)

theorem CodeBuf.pushAll_fits : ∀ (ws : List U32) {j : CodeBuf}, j.code_off ≤ j.code_capacity →
    (j.pushAll ws).code_off ≤ j.code_capacity
  | [], _, h => h
  | w :: ws, j, h => by
    have hw := CodeBuf.push_fits w h
    rw [← j.push_capacity w] at hw ⊢
    exact CodeBuf.pushAll_fits ws hw

/-- **With room, every word lands.** -/
theorem CodeBuf.pushAll_room : ∀ (ws : List U32) (j : CodeBuf), j.code_off + ws.length ≤ j.code_capacity →
    (j.pushAll ws).code_buf = j.code_buf ++ ws ∧ (j.pushAll ws).dropped = j.dropped ∧
      (j.pushAll ws).outside = j.outside
  | [], j, _ => ⟨(List.append_nil _).symm, rfl, rfl⟩
  | w :: ws, j, h => by
    rw [List.length_cons] at h
    have hpush : j.push w = { j with code_buf := j.code_buf ++ [w], calls := j.calls + 1 } := if_pos (by omega)
    have hroom : (j.push w).code_off + ws.length ≤ (j.push w).code_capacity := by
      rw [hpush]
      show (j.code_buf ++ [w]).length + ws.length ≤ j.code_capacity
      rw [List.length_append]
      have : j.code_off = j.code_buf.length := rfl
      simp only [List.length_cons, List.length_nil]
      omega
    obtain ⟨hbuf, hdropped, houtside⟩ := CodeBuf.pushAll_room ws (j.push w) hroom
    refine ⟨?_, ?_, ?_⟩
    · show ((j.push w).pushAll ws).code_buf = _
      rw [hbuf, hpush]
      exact List.append_assoc ..
    · exact hdropped.trans (by rw [hpush])
    · exact houtside.trans (by rw [hpush])

/-! ## Code that patches -/

/-- Every run of `m` calls `emit` `n` times; the buffer stays within its capacity. -/
def Calls (m : Emit α) (n : Nat) : Prop := ∀ j,
  (m j).2.calls = j.calls + n ∧ (m j).2.code_capacity = j.code_capacity ∧
    (j.code_off ≤ j.code_capacity → (m j).2.code_off ≤ j.code_capacity)

/-- The buffer holds `ws` from word `o` on. -/
def CodeBuf.HoldsFrom (j : CodeBuf) (o : Nat) (pre ws : List U32) : Prop := pre.length = o ∧ j.code_buf = pre ++ ws

/-- From the words `ws` at `o`, `m` makes them `vs` and answers `a`, when there is room for all. -/
structure Lays (o : Nat) (ws : List U32) (m : Emit α) (a : α) (vs : List U32) : Prop where
  grows : ws.length ≤ vs.length
  run : ∀ j pre, j.HoldsFrom o pre ws → o + vs.length ≤ j.code_capacity →
    (m j).1 = a ∧ (m j).2.HoldsFrom o pre vs ∧ (m j).2.code_capacity = j.code_capacity ∧
      (m j).2.dropped = j.dropped ∧ (m j).2.outside = j.outside

theorem calls_pure (a : α) : Calls (pure a) 0 := fun _ => ⟨rfl, rfl, fun h => h⟩

theorem Emits.calls {m : Emit α} {ws : List U32} {a : α} (h : Emits m ws a) : Calls m ws.length := by
  intro j
  rw [h j]
  exact ⟨CodeBuf.pushAll_calls ws j, CodeBuf.pushAll_capacity ws j, CodeBuf.pushAll_fits ws⟩

theorem calls_emit (w : U32) : Calls (emit w) 1 := (emits_emit w).calls

theorem calls_codeOff : Calls codeOff 0 := fun _ => ⟨rfl, rfl, fun h => h⟩

theorem calls_patch (off : Nat) (w : U32) : Calls (patch off w) 0 := by
  intro j
  show (j.patch off w).calls = _ ∧ (j.patch off w).code_capacity = _ ∧ (_ → (j.patch off w).code_off ≤ _)
  unfold CodeBuf.patch
  split
  · exact ⟨rfl, rfl, fun h => Nat.le_trans (Nat.le_of_eq (List.length_set ..)) h⟩
  · exact ⟨rfl, rfl, fun h => h⟩

theorem Calls.bind {m : Emit α} {f : α → Emit β} {n k : Nat} (hm : Calls m n) (hf : ∀ a, Calls (f a) k) :
    Calls (m >>= f) (n + k) := by
  intro j
  obtain ⟨hcalls, hcap, hfits⟩ := hm j
  obtain ⟨hcalls', hcap', hfits'⟩ := hf (m j).1 (m j).2
  rw [hcap] at hcap' hfits'
  exact ⟨by show (f (m j).1 (m j).2).2.calls = _; omega, hcap', fun h => hfits' (hfits h)⟩

theorem Calls.congr {m : Emit α} {n k : Nat} (h : Calls m n) (e : n = k) : Calls m k := e ▸ h

variable {o : Nat} {ws : List U32}

theorem lays_pure (a : α) : Lays o ws (pure a) a ws := ⟨Nat.le_refl _, fun _ _ h _ => ⟨rfl, h, rfl, rfl, rfl⟩⟩

theorem Emits.lays {m : Emit α} {vs : List U32} {a : α} (h : Emits m vs a) : Lays o ws m a (ws ++ vs) := by
  refine ⟨by simp, fun j pre hj hroom => ?_⟩
  have hoff : j.code_off = o + ws.length := by
    rw [← hj.1, ← List.length_append, ← hj.2]
    rfl
  rw [List.length_append] at hroom
  obtain ⟨hbuf, hdropped, houtside⟩ := CodeBuf.pushAll_room vs j (by omega)
  rw [h j]
  exact ⟨rfl, ⟨hj.1, by rw [hbuf, hj.2, List.append_assoc]⟩, CodeBuf.pushAll_capacity vs j, hdropped, houtside⟩

theorem lays_codeOff : Lays o ws codeOff (o + ws.length) ws := by
  refine ⟨Nat.le_refl _, fun j pre hj _ => ⟨?_, hj, rfl, rfl, rfl⟩⟩
  show j.code_buf.length = _
  rw [hj.2, List.length_append, hj.1]

theorem lays_patch {i : Nat} (h : i < ws.length) (w : U32) : Lays o ws (patch (o + i) w) () (ws.set i w) := by
  refine ⟨by simp, fun j pre hj hroom => ?_⟩
  rw [List.length_set] at hroom
  have hpatch : j.patch (o + i) w = { j with code_buf := j.code_buf.set (o + i) w } := if_pos (by omega)
  show _ ∧ (j.patch (o + i) w).HoldsFrom o pre _ ∧ (j.patch (o + i) w).code_capacity = _ ∧
    (j.patch (o + i) w).dropped = _ ∧ (j.patch (o + i) w).outside = _
  rw [hpatch]
  refine ⟨rfl, ⟨hj.1, ?_⟩, rfl, rfl, rfl⟩
  show j.code_buf.set (o + i) w = _
  rw [hj.2, List.set_append_right _ _ (by have := hj.1; omega), hj.1, Nat.add_sub_cancel_left]

theorem Lays.bind {m : Emit α} {f : α → Emit β} {vs us : List U32} {a : α} {b : β} (hm : Lays o ws m a vs)
    (hf : Lays o vs (f a) b us) : Lays o ws (m >>= f) b us := by
  refine ⟨Nat.le_trans hm.grows hf.grows, fun j pre hj hroom => ?_⟩
  obtain ⟨ha, hj', hcap, hdropped, houtside⟩ := hm.run j pre hj (by have := hf.grows; omega)
  obtain ⟨hb, hj'', hcap', hdropped', houtside'⟩ := hf.run (m j).2 pre hj' (by omega)
  have hrun : (m >>= f) j = f a (m j).2 := by
    rw [← ha]
    rfl
  rw [hrun]
  exact ⟨hb, hj'', hcap'.trans hcap, hdropped'.trans hdropped, houtside'.trans houtside⟩

theorem Lays.congr {m : Emit α} {vs us : List U32} {a b : α} (h : Lays o ws m a vs) (ha : a = b) (hvs : vs = us) :
    Lays o ws m b us := ha ▸ hvs ▸ h

/-! ## Constants -/

/-- The words of `movChunks`. -/
def movLoop (rd : U32) (imm : U64) : List Nat → Bool → List U32
  | [], _ => []
  | s :: rest, first =>
    if chunk imm s ≠ 0 ∨ (s = 3 ∧ first = true) then
      (if first then movz else movk) s (chunk imm s) rd :: movLoop rd imm rest false
    else movLoop rd imm rest first

def movImm (rd : U32) (imm : U64) : List U32 := movLoop rd imm [0, 1, 2, 3] true

/-- How many words a constant takes: one for each 16-bit part that is not zero, and one for zero. -/
def movWords (imm : U64) : Nat := max 1 ([0, 1, 2, 3].countP fun s => chunk imm s != 0)

/-- The loop leaves `first` as it was when no part was taken. -/
def movFirst (imm : U64) (l : List Nat) (first : Bool) : Bool := first && l.all fun s => chunk imm s == 0 && s != 3

theorem movFirst_taken {imm : U64} {s : Nat} {rest : List Nat} {first : Bool}
    (h : chunk imm s ≠ 0 ∨ (s = 3 ∧ first = true)) : movFirst imm (s :: rest) first = false := by
  unfold movFirst
  rw [List.all_cons]
  rcases h with hc | ⟨h3, _⟩
  · rw [beq_false_of_ne hc, Bool.false_and, Bool.false_and, Bool.and_false]
  · subst h3
    simp

theorem movFirst_left {imm : U64} {s : Nat} {rest : List Nat} {first : Bool}
    (h : ¬ (chunk imm s ≠ 0 ∨ (s = 3 ∧ first = true))) : movFirst imm (s :: rest) first = movFirst imm rest first := by
  obtain ⟨hc, h3⟩ := not_or.1 h
  unfold movFirst
  cases first with
  | false => rfl
  | true =>
    have hs : (s != 3) = true := bne_iff_ne.2 fun e => h3 ⟨e, rfl⟩
    rw [List.all_cons, not_not.1 hc, hs]
    rfl

theorem emits_movChunks (rd : U32) (imm : U64) : ∀ (l : List Nat) (first : Bool),
    Emits (movChunks rd imm l first) (movLoop rd imm l first) (movFirst imm l first)
  | [], first => by
    rw [movFirst, List.all_nil, Bool.and_true]
    exact emits_pure first
  | s :: rest, first => by
    unfold movChunks movLoop
    split
    · rename_i hs
      rw [movFirst_taken hs]
      exact (emits_emit _).bind (emits_movChunks rd imm rest false)
    · rename_i hs
      rw [movFirst_left hs]
      exact emits_movChunks rd imm rest first

theorem emits_movImm64 (rd : U32) (imm : U64) : Emits (emitMovImm64 rd imm) (movImm rd imm) () := by
  have hfirst : movFirst imm [0, 1, 2, 3] true = false := by simp [movFirst]
  have h := emits_movChunks rd imm [0, 1, 2, 3] true
  rw [hfirst] at h
  have hb : Emits (emitMovImm64 rd imm) (movImm rd imm ++ []) () := h.bind (emits_pure ())
  rwa [List.append_nil] at hb

theorem movImm_length (rd : U32) (imm : U64) : (movImm rd imm).length = movWords imm := by
  by_cases h0 : chunk imm 0 = 0#16 <;> by_cases h1 : chunk imm 1 = 0#16 <;> by_cases h2 : chunk imm 2 = 0#16 <;>
    by_cases h3 : chunk imm 3 = 0#16 <;> simp [movImm, movLoop, movWords, h0, h1, h2, h3]

theorem movWords_pos (imm : U64) : 1 ≤ movWords imm := Nat.le_max_left ..

theorem movWords_le (imm : U64) : movWords imm ≤ 4 := Nat.max_le.2 ⟨by decide, List.countP_le_length⟩

/-! ## Guest registers and addresses -/

def loadGuest (armRd : U32) (guestRs : BitVec 5) : List U32 :=
  if guestRs = 0 then movImm armRd 0 else [ldrXWord armRd cpuReg (xoff guestRs)]

def storeGuest (armRs : U32) (guestRd : BitVec 5) : List U32 :=
  if guestRd = 0 then [] else [strXWord armRs cpuReg (xoff guestRd)]

/-- The words of `emit_add_simm`, of a 12-bit constant. -/
def addSimm (rd rn : U32) (imm : U64) : U32 :=
  if 0 ≤ imm.toInt then addImm12Word rd rn (imm.setWidth 32) else subImm12Word rd rn ((-imm).setWidth 32)

theorem emits_loadGuest (armRd : U32) (guestRs : BitVec 5) :
    Emits (emitLoadGuest armRd guestRs) (loadGuest armRd guestRs) () := by
  unfold emitLoadGuest loadGuest
  split
  · exact emits_movImm64 armRd 0
  · exact emits_emit _

theorem emits_storeGuest (armRs : U32) (guestRd : BitVec 5) :
    Emits (emitStoreGuest armRs guestRd) (storeGuest armRs guestRd) () := by
  unfold emitStoreGuest storeGuest
  by_cases h : guestRd = 0
  · rw [if_pos h, if_neg (not_not.2 h)]
    exact emits_pure ()
  · rw [if_neg h, if_pos h]
    exact emits_emit _

theorem loadGuest_length (armRd : U32) (guestRs : BitVec 5) : (loadGuest armRd guestRs).length = 1 := by
  unfold loadGuest
  split
  · exact movImm_length armRd 0
  · rfl

theorem storeGuest_length (armRs : U32) (guestRd : BitVec 5) :
    (storeGuest armRs guestRd).length = if guestRd = 0 then 0 else 1 := by
  unfold storeGuest
  split <;> rfl

theorem signExtend12_range (v : BitVec 12) : -2048 ≤ (v.signExtend 64).toInt ∧ (v.signExtend 64).toInt ≤ 2047 := by
  rw [BitVec.toInt_signExtend_of_le (by decide)]
  have hlt : v.toInt < 2 ^ (12 - 1) := BitVec.toInt_lt
  have hle : -2 ^ (12 - 1) ≤ v.toInt := BitVec.le_toInt v
  omega

theorem emits_addSimm (rd rn : U32) (v : BitVec 12) :
    Emits (emitAddSimm rd rn (v.signExtend 64)) [addSimm rd rn (v.signExtend 64)] () := by
  obtain ⟨hlow, hhigh⟩ := signExtend12_range v
  unfold emitAddSimm addSimm
  by_cases h : 0 ≤ (v.signExtend 64).toInt
  · rw [if_pos h, if_pos ⟨h, by omega⟩]
    exact emits_emit _
  · rw [if_neg h, if_neg (fun hc => h hc.1), if_pos ⟨by omega, by omega⟩]
    exact emits_emit _

def addressWords (pc : U64) (v : BitVec 12) (rs1 : BitVec 5) : List U32 :=
  movImm 0 pc ++ (strXWord 0 cpuReg offPc :: (loadGuest 1 rs1 ++ [addSimm 1 1 (v.signExtend 64)]))

theorem emits_address (pc : U64) (v : BitVec 12) (rs1 : BitVec 5) :
    Emits (emitAddress pc (v.signExtend 64) rs1) (addressWords pc v rs1) () :=
  (emits_movImm64 0 pc).bind ((emits_emit _).bind ((emits_loadGuest 1 rs1).bind (emits_addSimm 1 1 v)))

theorem addressWords_length (pc : U64) (v : BitVec 12) (rs1 : BitVec 5) :
    (addressWords pc v rs1).length = movWords pc + 3 := by
  simp [addressWords, movImm_length, loadGuest_length]

/-! ## Accesses -/

theorem lays_hole : Lays o ws emitHole (o + ws.length) (ws ++ [0]) :=
  lays_codeOff.bind ((emits_emit 0).lays.bind (lays_pure _))

/-- The tag check and the host page check, with the branches `bne` and `cbz`. -/
def probeWords (bne cbz : U32) : List U32 :=
  [lsrImmWord 5 1 12, andImmWord 6 5 12, lslImmWord 6 6 5, addWord 6 6 cpuReg, addImm12Word 6 6 offTlb, ldrXWord 7 6 0,
    cmpWord 7 5, bne, ldrXWord 8 6 16, cbz]

theorem lays_probe : Lays o [] emitTlbProbe (o + 7, o + 9) (probeWords 0 0) := by
  unfold emitTlbProbe
  exact (emits_emit _).lays.bind <| (emits_emit _).lays.bind <| (emits_emit _).lays.bind <| (emits_emit _).lays.bind <|
    (emits_emit _).lays.bind <| (emits_emit _).lays.bind <| (emits_emit _).lays.bind <| lays_hole.bind <|
    (emits_emit _).lays.bind <| lays_hole.bind <| lays_pure _

/-- The page-crossing check. -/
def pageWords (t : U32) (size : Nat) (bhi : U32) : List U32 :=
  if 1 < size then [addImm12Word t 9 (BitVec.ofNat 32 size), movz 0 4096 4, cmpWord t 4, bhi] else []

theorem movImm_page : movImm 4 4096 = [movz 0 4096 4] := by decide +kernel

theorem lays_page (t : U32) (size : Nat) :
    Lays o ws (emitPageCheck t size) (if 1 < size then some (o + (ws.length + 3)) else none) (ws ++ pageWords t size 0) := by
  unfold emitPageCheck pageWords
  split
  · have hmov := emits_movImm64 4 4096
    rw [movImm_page] at hmov
    have h : Lays o ws (do
        emitAddImm12 t 9 (BitVec.ofNat 32 size)
        emitMovImm64 4 4096
        emitCmp t 4
        return some (← emitHole)) _ _ :=
      (emits_emit _).lays.bind <| hmov.lays.bind <| (emits_emit _).lays.bind <| lays_hole.bind <| lays_pure _
    refine h.congr ?_ ?_
    · simp
    · simp
  · exact (lays_pure none).congr rfl (List.append_nil ws).symm

def loadCallWords (h : Helpers) (size : Nat) (cbnz : U32) : List U32 :=
  movWord 0 cpuReg :: movzWWord 2 (BitVec.ofNat 16 size) :: addImm12Word 3 31 0 ::
    (movImm 16 h.fn_load ++ [blrWord 16, cbnz, ldrXWord 2 31 0])

theorem lays_loadCall (h : Helpers) (size : Nat) :
    Lays o ws (emitLoadCall h size) (o + (ws.length + (movWords h.fn_load + 4))) (ws ++ loadCallWords h size 0) := by
  have hl : Lays o ws (emitLoadCall h size) _ _ := (emits_emit _).lays.bind <| (emits_emit _).lays.bind <|
    (emits_emit _).lays.bind <| (emits_movImm64 16 h.fn_load).lays.bind <| (emits_emit _).lays.bind <| lays_hole.bind <|
    (emits_emit _).lays.bind <| lays_pure _
  refine hl.congr ?_ ?_
  · simp only [List.length_append, movImm_length, List.length_cons, List.length_nil]
    omega
  · simp [loadCallWords]

def storeCallWords (h : Helpers) (size : Nat) (cbnz : U32) : List U32 :=
  movWord 0 cpuReg :: movWord 3 2 :: movzWWord 2 (BitVec.ofNat 16 size) ::
    (movImm 16 h.fn_store ++ [blrWord 16, cbnz])

theorem lays_storeCall (h : Helpers) (size : Nat) :
    Lays o ws (emitStoreCall h size) (o + (ws.length + (movWords h.fn_store + 4))) (ws ++ storeCallWords h size 0) := by
  have hl : Lays o ws (emitStoreCall h size) _ _ := (emits_emit _).lays.bind <| (emits_emit _).lays.bind <|
    (emits_emit _).lays.bind <| (emits_movImm64 16 h.fn_store).lays.bind <| (emits_emit _).lays.bind lays_hole
  refine hl.congr ?_ ?_
  · simp only [List.length_append, movImm_length, List.length_cons, List.length_nil]
    omega
  · simp [storeCallWords]

/-- The check of the dirty flag, which stores make. -/
def dirtyWords (store : Bool) (cbz : U32) : List U32 := if store then [ldrbUoffWord 10 6 26, cbz] else []

/-- An access from the tag check to the end of its fast path, with the branches in it. -/
def fastWords (store : Bool) (t : U32) (size : Nat) (access bne cbz cbzDirty bhi b : U32) : List U32 :=
  probeWords bne cbz ++ (dirtyWords store cbzDirty ++ (andImmWord 9 1 12 :: (pageWords t size bhi ++ [access, b])))

/-- Where the slow path starts. -/
def slowOff (store : Bool) (size : Nat) : Nat := (if store then 15 else 13) + if 1 < size then 4 else 0

def branches (o : Nat) (store : Bool) (size : Nat) : Branches :=
  ⟨o + 7, o + 9, if store then some (o + 11) else none,
    if 1 < size then some (o + (slowOff store size - 3)) else none, o + (slowOff store size - 1)⟩

theorem lays_loadFast (size : Nat) :
    Lays o [] (emitLoadFast size) (branches o false size) (fastWords false 10 size (ldrRegWord size 2 8 9) 0 0 0 0 0) := by
  have h : Lays o [] (emitLoadFast size) _ _ := lays_probe.bind <| (emits_emit _).lays.bind <|
    (lays_page 10 size).bind <| (emits_emit _).lays.bind <| lays_hole.bind <| lays_pure _
  refine h.congr ?_ ?_
  · unfold branches slowOff pageWords
    split <;> rfl
  · unfold fastWords pageWords
    split <;> rfl

theorem lays_storeFast (size : Nat) :
    Lays o [] (emitStoreFast size) (branches o true size) (fastWords true 11 size (strRegWord size 2 8 9) 0 0 0 0 0) := by
  have h : Lays o [] (emitStoreFast size) _ _ := lays_probe.bind <| (emits_emit _).lays.bind <| lays_hole.bind <|
    (emits_emit _).lays.bind <| (lays_page 11 size).bind <| (emits_emit _).lays.bind <| lays_hole.bind <| lays_pure _
  refine h.congr ?_ ?_
  · unfold branches slowOff pageWords
    split <;> rfl
  · unfold fastWords pageWords
    split <;> rfl

theorem fastWords_length (store : Bool) (t : U32) (size : Nat) (access bne cbz cbzDirty bhi b : U32) :
    (fastWords store t size access bne cbz cbzDirty bhi b).length = slowOff store size := by
  by_cases hs : 1 < size <;> cases store <;> simp [fastWords, probeWords, dirtyWords, pageWords, slowOff, hs]

/-- The fast path with its branches to the slow path, and a jump `b` over it. -/
def fastPath (store : Bool) (t : U32) (size : Nat) (access b : U32) : List U32 :=
  let s := slowOff store size
  fastWords store t size access (bcondWord condNE (s - 7)) (cbzWord 8 (s - 9)) (cbzWord 10 (s - 11)) (bcondWord condHI 3) b

theorem lays_patchSlow (store : Bool) (t : U32) (size : Nat) (access : U32) :
    Lays o (fastWords store t size access 0 0 0 0 0) (patchSlow (branches o store size)) ()
      (fastPath store t size access 0) := by
  unfold patchSlow branches
  refine lays_codeOff.bind ?_
  rw [fastWords_length]
  have hlen := fastWords_length store t size access
  have h13 : 13 ≤ slowOff store size := by
    unfold slowOff
    split <;> omega
  refine Lays.bind (lays_patch (by rw [hlen]; omega) _) ?_
  refine Lays.bind (lays_patch (by rw [List.length_set, hlen]; omega) _) ?_
  rw [Nat.add_sub_add_left, Nat.add_sub_add_left]
  have hdirty : ∀ bne cbz, Lays o (fastWords store t size access bne cbz 0 0 0)
      (patchSome (if store then some (o + 11) else none) fun off => cbzWord 10 (o + slowOff store size - off)) ()
      (fastWords store t size access bne cbz (cbzWord 10 (slowOff store size - 11)) 0 0) := by
    intro bne cbz
    cases store with
    | false => exact lays_pure ()
    | true =>
      show Lays o _ (patch (o + 11) (cbzWord 10 (o + slowOff true size - (o + 11)))) () _
      rw [Nat.add_sub_add_left]
      exact lays_patch (by rw [hlen]; omega) _
  have hbhi : ∀ bne cbz cbzDirty, Lays o (fastWords store t size access bne cbz cbzDirty 0 0)
      (patchSome (if 1 < size then some (o + (slowOff store size - 3)) else none)
        fun off => bcondWord condHI (o + slowOff store size - off)) ()
      (fastWords store t size access bne cbz cbzDirty (bcondWord condHI 3) 0) := by
    intro bne cbz cbzDirty
    by_cases hs : 1 < size
    · have hset : (fastWords store t size access bne cbz cbzDirty 0 0).set (slowOff store size - 3) (bcondWord condHI 3) =
          fastWords store t size access bne cbz cbzDirty (bcondWord condHI 3) 0 := by
        unfold slowOff fastWords pageWords
        rw [if_pos hs, if_pos hs, if_pos hs]
        cases store <;> rfl
      have hdist : o + slowOff store size - (o + (slowOff store size - 3)) = 3 := by omega
      rw [if_pos hs]
      show Lays o _ (patch _ (bcondWord condHI (o + slowOff store size - (o + (slowOff store size - 3))))) () _
      rw [hdist]
      exact (lays_patch (by rw [hlen]; omega) _).congr rfl hset
    · have hsame : fastWords store t size access bne cbz cbzDirty (bcondWord condHI 3) 0 =
          fastWords store t size access bne cbz cbzDirty 0 0 := by
        unfold fastWords pageWords
        rw [if_neg hs, if_neg hs]
      rw [if_neg hs, hsame]
      exact lays_pure ()
  exact (hdirty _ _).bind (hbhi _ _ _)

def sextWord (size : Nat) (rd rn : U32) : U32 :=
  match size with
  | 1 => sxtbWord rd rn
  | 2 => sxthWord rd rn
  | _ => sxtwWord rd rn

def sextWords (doSext : Bool) (size : Nat) (rd rn : U32) : List U32 := if doSext then [sextWord size rd rn] else []

theorem emits_sext (doSext : Bool) (size : Nat) (rd rn : U32) :
    Emits (emitSext doSext size rd rn) (sextWords doSext size rd rn) () := by
  unfold emitSext sextWords
  split
  · rcases size with _ | _ | _ | n <;> exact emits_emit _
  · exact emits_pure ()

/-- The words of a load after its address, from word `o` on. -/
def loadWords (o : Nat) (h : Helpers) (rd : BitVec 5) (size : Nat) (doSext : Bool) : List U32 :=
  let m := movWords h.fn_load
  let cbnz := slowOff false size + m + 4
  fastPath false 10 size (ldrRegWord size 2 8 9) (bWord (m + 7)) ++
    (loadCallWords h size (BitVec.ofNat 32 (o + cbnz)) ++ (sextWords doSext size 2 2 ++ storeGuest 2 rd))

/-- The words of a store after its address and value, from word `o` on. -/
def storeWords (o : Nat) (h : Helpers) (size : Nat) : List U32 :=
  let m := movWords h.fn_store
  let cbnz := slowOff true size + m + 4
  fastPath true 11 size (strRegWord size 2 8 9) (bWord (m + 6)) ++ storeCallWords h size (BitVec.ofNat 32 (o + cbnz))

/-- The jump over the slow path, patched. -/
theorem lays_patchDone (store : Bool) (t : U32) (size : Nat) (access : U32) (vs : List U32) :
    Lays o (fastPath store t size access 0 ++ vs) (patchDone (branches o store size)) ()
      (fastPath store t size access (bWord (vs.length + 1)) ++ vs) := by
  have hpos : 0 < slowOff store size := by
    unfold slowOff
    split <;> omega
  have hlen : ∀ b, (fastPath store t size access b).length = slowOff store size := fun b => fastWords_length ..
  have hset : ∀ w, (fastPath store t size access 0).set (slowOff store size - 1) w = fastPath store t size access w := by
    intro w
    unfold fastPath fastWords dirtyWords pageWords slowOff
    by_cases hs : 1 < size
    · rw [if_pos hs, if_pos hs]
      cases store <;> rfl
    · rw [if_neg hs, if_neg hs]
      cases store <;> rfl
  have hdist : o + (slowOff store size + vs.length) - (o + (slowOff store size - 1)) = vs.length + 1 := by omega
  unfold patchDone branches
  refine lays_codeOff.bind ?_
  rw [List.length_append, hlen, hdist]
  refine (lays_patch (by rw [List.length_append, hlen]; omega) _).congr rfl ?_
  rw [List.set_append_left _ _ (by rw [hlen]; omega), hset]

theorem loadCallWords_length (h : Helpers) (size : Nat) (cbnz : U32) :
    (loadCallWords h size cbnz).length = movWords h.fn_load + 6 := by
  simp [loadCallWords, movImm_length]

theorem storeCallWords_length (h : Helpers) (size : Nat) (cbnz : U32) :
    (storeCallWords h size cbnz).length = movWords h.fn_store + 5 := by
  simp [storeCallWords, movImm_length]

theorem loadWords_length (h : Helpers) (rd : BitVec 5) (size : Nat) (doSext : Bool) :
    (loadWords o h rd size doSext).length =
      slowOff false size + (movWords h.fn_load + 6) + (if doSext then 1 else 0) + if rd = 0 then 0 else 1 := by
  unfold loadWords fastPath sextWords
  simp only [List.length_append, fastWords_length, loadCallWords_length, storeGuest_length, Nat.add_assoc]
  cases doSext <;> rfl

theorem storeWords_length (h : Helpers) (size : Nat) :
    (storeWords o h size).length = slowOff true size + (movWords h.fn_store + 5) := by
  unfold storeWords fastPath
  simp only [List.length_append, fastWords_length, storeCallWords_length]

theorem lays_loadAccess (h : Helpers) (rd : BitVec 5) (size : Nat) (doSext : Bool) :
    Lays o [] (emitLoadAccess h rd size doSext) (fixupResult (o + (slowOff false size + (movWords h.fn_load + 4))))
      (loadWords o h rd size doSext) := by
  have hlen : ∀ b, (fastPath false 10 size (ldrRegWord size 2 8 9) b).length = slowOff false size :=
    fun b => fastWords_length ..
  have hcall := loadCallWords_length h size
  have hset : ∀ w, (loadCallWords h size 0).set (movWords h.fn_load + 4) w = loadCallWords h size w := by
    intro w
    simp [loadCallWords, movImm_length]
  unfold emitLoadAccess
  refine (lays_loadFast size).bind <| (lays_patchSlow ..).bind <| (lays_loadCall h size).bind ?_
  refine (lays_patchDone ..).bind <| (emits_sext doSext size 2 2).lays.bind <|
    (emits_storeGuest 2 rd).lays.bind ?_
  rw [hlen, hcall]
  refine Lays.bind (lays_patch (by simp only [List.length_append, hlen, hcall]; omega) _) ?_
  refine (lays_pure _).congr rfl ?_
  rw [List.append_assoc, List.append_assoc, List.set_append_right _ _ (by rw [hlen]; omega), hlen,
    Nat.add_sub_cancel_left, List.set_append_left _ _ (by rw [hcall]; omega), hset]
  rfl

theorem lays_storeAccess (h : Helpers) (size : Nat) :
    Lays o [] (emitStoreAccess h size) (fixupResult (o + (slowOff true size + (movWords h.fn_store + 4))))
      (storeWords o h size) := by
  have hlen : ∀ b, (fastPath true 11 size (strRegWord size 2 8 9) b).length = slowOff true size :=
    fun b => fastWords_length ..
  have hcall := storeCallWords_length h size
  have hset : ∀ w, (storeCallWords h size 0).set (movWords h.fn_store + 4) w = storeCallWords h size w := by
    intro w
    simp [storeCallWords, movImm_length]
  unfold emitStoreAccess
  refine (lays_storeFast size).bind <| (lays_patchSlow ..).bind <| (lays_storeCall h size).bind ?_
  refine (lays_patchDone ..).bind ?_
  rw [hlen, hcall]
  refine Lays.bind (lays_patch (by simp only [List.length_append, hlen, hcall]; omega) _) ?_
  refine (lays_pure _).congr rfl ?_
  rw [List.set_append_right _ _ (by rw [hlen]; omega), hlen, Nat.add_sub_cancel_left, hset]
  rfl

theorem calls_hole : Calls emitHole 1 := calls_codeOff.bind fun _ => (calls_emit 0).bind fun _ => calls_pure _

theorem calls_probe : Calls emitTlbProbe 10 :=
  (calls_emit _).bind fun _ => (calls_emit _).bind fun _ => (calls_emit _).bind fun _ => (calls_emit _).bind fun _ =>
    (calls_emit _).bind fun _ => (calls_emit _).bind fun _ => (calls_emit _).bind fun _ => calls_hole.bind fun _ =>
    (calls_emit _).bind fun _ => calls_hole.bind fun _ => calls_pure _

theorem calls_page (t : U32) (size : Nat) : Calls (emitPageCheck t size) (if 1 < size then 4 else 0) := by
  unfold emitPageCheck
  split
  · have hmov := (emits_movImm64 4 4096).calls
    rw [movImm_page] at hmov
    exact ((calls_emit _).bind fun _ => hmov.bind fun _ => (calls_emit _).bind fun _ => calls_hole.bind fun _ =>
      calls_pure _).congr rfl
  · exact calls_pure _

theorem calls_patchSome (off : Option Nat) (word : Nat → U32) : Calls (patchSome off word) 0 := by
  cases off with
  | none => exact calls_pure ()
  | some off => exact calls_patch _ _

theorem calls_patchSlow (b : Branches) : Calls (patchSlow b) 0 :=
  calls_codeOff.bind fun _ => (calls_patch _ _).bind fun _ => (calls_patch _ _).bind fun _ =>
    (calls_patchSome _ _).bind fun _ => calls_patchSome _ _

theorem calls_patchDone (b : Branches) : Calls (patchDone b) 0 := calls_codeOff.bind fun _ => calls_patch _ _

theorem calls_loadAccess (h : Helpers) (rd : BitVec 5) (size : Nat) (doSext : Bool) :
    Calls (emitLoadAccess h rd size doSext) (loadWords o h rd size doSext).length := by
  have hfast : Calls (emitLoadFast size) _ := calls_probe.bind fun _ => (calls_emit _).bind fun _ =>
    (calls_page 10 size).bind fun _ => (calls_emit _).bind fun _ => calls_hole.bind fun _ => calls_pure _
  have hcall : Calls (emitLoadCall h size) _ := (calls_emit _).bind fun _ => (calls_emit _).bind fun _ =>
    (calls_emit _).bind fun _ => (emits_movImm64 16 h.fn_load).calls.bind fun _ => (calls_emit _).bind fun _ =>
    calls_hole.bind fun _ => (calls_emit _).bind fun _ => calls_pure _
  have hall : Calls (emitLoadAccess h rd size doSext) _ := hfast.bind fun b => (calls_patchSlow b).bind fun _ =>
    hcall.bind fun _ => (calls_patchDone b).bind fun _ => (emits_sext doSext size 2 2).calls.bind fun _ =>
    (emits_storeGuest 2 rd).calls.bind fun _ => (calls_patch _ _).bind fun _ => calls_pure _
  refine hall.congr ?_
  rw [loadWords_length, movImm_length, storeGuest_length]
  unfold sextWords slowOff
  cases doSext <;> simp <;> omega

theorem calls_storeAccess (h : Helpers) (size : Nat) : Calls (emitStoreAccess h size) (storeWords o h size).length := by
  have hfast : Calls (emitStoreFast size) _ := calls_probe.bind fun _ => (calls_emit _).bind fun _ =>
    calls_hole.bind fun _ => (calls_emit _).bind fun _ => (calls_page 11 size).bind fun _ => (calls_emit _).bind fun _ =>
    calls_hole.bind fun _ => calls_pure _
  have hcall : Calls (emitStoreCall h size) _ := (calls_emit _).bind fun _ => (calls_emit _).bind fun _ =>
    (calls_emit _).bind fun _ => (emits_movImm64 16 h.fn_store).calls.bind fun _ => (calls_emit _).bind fun _ => calls_hole
  have hall : Calls (emitStoreAccess h size) _ := hfast.bind fun b => (calls_patchSlow b).bind fun _ =>
    hcall.bind fun _ => (calls_patchDone b).bind fun _ => (calls_patch _ _).bind fun _ => calls_pure _
  refine hall.congr ?_
  simp only [storeWords, fastPath, List.length_append, fastWords_length, storeCallWords_length, movImm_length, slowOff, if_true]
  omega

end Arm64
end PgLinux
