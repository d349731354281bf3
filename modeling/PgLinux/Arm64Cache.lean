import PgLinux.Arm64Below
import PgLinux.Arm64Interpreter
/-!
# Arm64Cache — the cache of compiled blocks (`jit_exec`, `rv64_jit_parallel_worker`)

A direct-mapped cache holds where the code of a block stands in the buffer.  Blocks come from the compiler and, as messages,
from workers that compile them in buffers of their own; a full buffer is started over with an empty cache.
-/
namespace PgLinux
namespace Arm64

open A64 (Finishes State)

/-! ## The cache -/

/-- `struct jit_block` in the cache; `host_code` is the index of its first word, none for NULL. -/
structure Entry where
  guest_pc : U64
  host_code : Option Nat
  insn_count : U32
  valid : Bool
  has_store : U32
  pending : Bool

def Entry.zero : Entry := ⟨0, none, 0, false, 0, false⟩

/-- `struct jit_state`. -/
structure JitState where
  buf : CodeBuf
  cache : BitVec 16 → Entry
  enabled : Bool
  stat_hits : U64
  stat_compiles : U64
  stat_compile_fail : U64
  stat_jit_insns : U64

/-- `jit_init`, with the code buffer mapped. -/
def jitInit : JitState := ⟨emptyBuf, fun _ => .zero, true, 0, 0, 0, 0⟩

def jitFlush (j : JitState) : JitState := { j with buf := j.buf.flush, cache := fun _ => .zero }

def jitInvalidate (j : JitState) : JitState := { j with cache := fun i => { j.cache i with valid := false } }

def flag (b : Bool) : U32 := if b then 1 else 0

/-! ## Workers -/

/-- The message of a worker: the pc, the numbers of instructions, stores and words, and the code. -/
def payload (pc : U64) (insns hasStore : U32) (code : List U32) : List U32 :=
  pc.setWidth 32 :: (pc >>> 32).setWidth 32 :: insns :: hasStore :: BitVec.ofNat 32 code.length :: code

section Cache

variable [NetDevice]

/-- `jit_compile_offline`. -/
def jitCompileOffline (h : Helpers) (pc : U64) (c : Cpu) (j : CodeBuf) : Option Block × CodeBuf :=
  let r := jitCompileBlock h pc c j.flush
  (r.1.1, r.2)

/-- What a worker answers to a request; code of 1000 words or more it does not send. -/
def workerReply (h : Helpers) (pc : U64) (c : Cpu) (j : CodeBuf) : Option (List U32) :=
  match jitCompileOffline h pc c j with
  | (none, _) => some (payload pc 0 0 [])
  | (some b, j) =>
    if j.code_off < 1000 then some (payload pc (BitVec.ofNat 32 b.insn_count) (flag b.has_store) j.code_buf) else none

/-! ## `jit_exec` -/

omit [NetDevice] in
/-- One message taken from the queue. -/
def receive (data : List U32) (j : JitState) : JitState :=
  if 4 * data.length < 20 then j
  else
    let pc : U64 := data.getD 1 0 ++ data.getD 0 0
    let words := data.getD 4 0
    let i := cacheIndex pc
    if words = 0 then
      if (j.cache i).guest_pc = pc ∧ (j.cache i).pending = true then
        { j with cache := setAt j.cache i { j.cache i with pending := false } }
      else j
    else
      let j := if BitVec.ofNat 32 j.buf.code_capacity < BitVec.ofNat 32 j.buf.code_off + words then jitFlush j else j
      { j with
        buf := { j.buf with code_buf := j.buf.code_buf ++ (data.drop 5).take words.toNat }
        cache := setAt j.cache i ⟨pc, some j.buf.code_off, data.getD 2 0, true, data.getD 3 0, false⟩ }

omit [NetDevice] in
def poll (msgs : List (List U32)) (j : JitState) : JitState := msgs.foldl (fun j data => receive data j) j

omit [NetDevice] in
/-- The check for space, which clears the cache too. -/
def JitState.reserve (j : JitState) : JitState :=
  if j.buf.code_capacity < j.buf.code_off + maxNeeded then jitFlush j else j

/-- `jit_compile_block` with the cache: where the code stands. -/
def compileInto (h : Helpers) (pc : U64) (c : Cpu) (j : JitState) : Option Nat × Cpu × JitState :=
  let r := jitCompileBlock h pc c j.buf
  let j : JitState := { j.reserve with buf := r.2 }
  match r.1.1 with
  | none => (none, r.1.2, j)
  | some b =>
    let i := cacheIndex b.guest_pc
    (some b.host_code, r.1.2,
      { j with
        cache := setAt j.cache i
          { j.cache i with
            guest_pc := b.guest_pc
            host_code := some b.host_code
            insn_count := BitVec.ofNat 32 b.insn_count
            valid := true
            has_store := flag b.has_store } })

omit [NetDevice] in
def hits (c : Cpu) (j : JitState) : Bool :=
  let b := j.cache (cacheIndex c.pc)
  b.valid && b.guest_pc == c.pc

/-- The block at the pc: from the cache, or compiled.  A pc that could not be compiled is kept as such. -/
def lookup (h : Helpers) (c : Cpu) (j : JitState) : Option Nat × Cpu × JitState :=
  let i := cacheIndex c.pc
  if hits c j then ((j.cache i).host_code, c, { j with stat_hits := j.stat_hits + 1 })
  else
    match compileInto h c.pc c j with
    | (some o, c', j) => (some o, c', { j with stat_compiles := j.stat_compiles + 1 })
    | (none, c', j) =>
      (none, c',
        { j with
          cache := setAt j.cache i { j.cache i with valid := true, guest_pc := c.pc, host_code := none }
          stat_compile_fail := j.stat_compile_fail + 1 })

theorem lookup_miss {h : Helpers} {c : Cpu} {j : JitState} (hmiss : hits c j = false) :
    (lookup h c j).1 = (jitCompileBlock h c.pc c j.buf).1.1.map (·.host_code) := by
  unfold lookup compileInto
  dsimp only
  rw [if_neg (by rw [hmiss]; exact Bool.false_ne_true)]
  cases (jitCompileBlock h c.pc c j.buf).1.1 <;> rfl

/-- `jit_exec` up to the call: where the code to be called stands; none where it returns 0 without a call. -/
def jitExec (h : Helpers) (msgs : List (List U32)) (c : Cpu) (j : JitState) : Option Nat × Cpu × JitState :=
  if !j.enabled || c.halted then (none, c, j) else lookup h c (poll msgs j)

/-- The end of `jit_exec`, where the code has returned `n`. -/
def JitState.ran (n : U64) (j : JitState) : JitState := { j with stat_jit_insns := j.stat_jit_insns + n }

/-! ## Runs -/

/-- A compilation in a worker: the pc asked for, the CPU it read the code from and its buffer before. -/
structure Request where
  pc : U64
  cpu : Cpu
  buf : CodeBuf
  capacity : buf.code_capacity = workerCapacity

def Request.message (h : Helpers) (m : Request) : Option (List U32) := workerReply h m.pc m.cpu m.buf

/-- The state, with what was compiled since the cache was last flushed or invalidated from outside: the pc and the CPU. -/
structure Traced where
  jit : JitState
  made : List (U64 × Cpu)

def Traced.init : Traced := ⟨jitInit, []⟩

/-- The worker's message is received, if there is one. -/
def Traced.receive (h : Helpers) (s : Traced) (m : Request) : Traced :=
  match m.message h with
  | none => s
  | some data => ⟨Arm64.receive data s.jit, s.made ++ [(m.pc, m.cpu)]⟩

/-- `jit_exec` with the messages of `msgs` in its queue. -/
def Traced.exec (h : Helpers) (msgs : List Request) (c : Cpu) (s : Traced) : Traced :=
  if !s.jit.enabled || c.halted then s
  else
    let s := msgs.foldl (Traced.receive h) s
    ⟨(lookup h c s.jit).2.2, if hits c s.jit then s.made else s.made ++ [(c.pc, c)]⟩

inductive JitMove (h : Helpers) : Traced → Traced → Prop
  | exec (s : Traced) (msgs : List Request) (c : Cpu) : JitMove h s (s.exec h msgs c)
  | ran (s : Traced) (n : U64) : JitMove h s ⟨s.jit.ran n, s.made⟩
  | flush (s : Traced) : JitMove h s ⟨jitFlush s.jit, []⟩
  | invalidate (s : Traced) : JitMove h s ⟨jitInvalidate s.jit, []⟩

abbrev JitRun (h : Helpers) : Traced → Traced → Prop := Relation.ReflTransGen (JitMove h)

theorem poll_jit (h : Helpers) (msgs : List Request) (s : Traced) :
    (msgs.foldl (Traced.receive h) s).jit = poll (msgs.filterMap (·.message h)) s.jit := by
  induction msgs generalizing s with
  | nil => rfl
  | cons m msgs ih =>
    rw [List.foldl_cons, ih, List.filterMap_cons, Traced.receive]
    cases m.message h with
    | none => rfl
    | some data => rfl

/-- The ghost is no part of what happens. -/
theorem exec_jit (h : Helpers) (msgs : List Request) (c : Cpu) (s : Traced) :
    (s.exec h msgs c).jit = (jitExec h (msgs.filterMap (·.message h)) c s.jit).2.2 := by
  unfold Traced.exec jitExec
  split
  · rfl
  · rw [← poll_jit]

/-! ## What the cache holds -/

/-- The words `ws` stand at `o`. -/
def Stands (ws : List U32) (o : Nat) (buf : List U32) : Prop := ∃ pre q, pre.length = o ∧ buf = pre ++ (ws ++ q)

omit [NetDevice] in
theorem Stands.append {ws buf : List U32} {o : Nat} (h : Stands ws o buf) (q : List U32) : Stands ws o (buf ++ q) := by
  obtain ⟨pre, q', hpre, rfl⟩ := h
  exact ⟨pre, q' ++ q, hpre, by rw [List.append_assoc, List.append_assoc]⟩

/-- A valid entry: its code is that of a block compiled since, or nothing could be compiled there.  Code for which there was
no room may be cut off. -/
structure EntryOk (h : Helpers) (made : List (U64 × Cpu)) (buf : CodeBuf) (b : Entry) : Prop where
  code : ∀ o, b.host_code = some o → ∃ cc, (b.guest_pc, cc) ∈ made ∧ blockInsns b.guest_pc cc ≠ 0 ∧
    b.insn_count = BitVec.ofNat 32 (blockInsns b.guest_pc cc) ∧
    (o + blockWords h b.guest_pc cc ≤ buf.code_capacity → Stands (blockCode h b.guest_pc cc) o buf.code_buf)
  refused : b.host_code = none → ∃ cc, (b.guest_pc, cc) ∈ made ∧ blockInsns b.guest_pc cc = 0

structure Cached (h : Helpers) (s : Traced) : Prop where
  capacity : s.jit.buf.code_capacity = jitCapacity
  fits : s.jit.buf.code_off ≤ jitCapacity
  entry : ∀ i, (s.jit.cache i).valid = true →
    cacheIndex (s.jit.cache i).guest_pc = i ∧ EntryOk h s.made s.jit.buf (s.jit.cache i)

section Invariant

variable {h : Helpers} {s : Traced} {made : List (U64 × Cpu)} {buf : CodeBuf}

theorem EntryOk.grow {made' : List (U64 × Cpu)} {k : CodeBuf} {b : Entry} (hb : EntryOk h made buf b)
    (hmade : ∀ x ∈ made, x ∈ made') (hbuf : ∃ q, k.code_buf = buf.code_buf ++ q)
    (hcap : k.code_capacity = buf.code_capacity) : EntryOk h made' k b := by
  obtain ⟨q, hq⟩ := hbuf
  refine ⟨fun o ho => ?_, fun hnone => ?_⟩
  · obtain ⟨cc, hmem, hne, hcount, hcode⟩ := hb.code o ho
    refine ⟨cc, hmade _ hmem, hne, hcount, fun hroom => ?_⟩
    rw [hcap] at hroom
    rw [hq]
    exact (hcode hroom).append q
  · obtain ⟨cc, hmem, h0⟩ := hb.refused hnone
    exact ⟨cc, hmade _ hmem, h0⟩

/-- More was compiled, and the buffer has grown. -/
theorem Cached.grow (hs : Cached h s) {made' : List (U64 × Cpu)} {k : CodeBuf} (hmade : ∀ x ∈ s.made, x ∈ made')
    (hbuf : ∃ q, k.code_buf = s.jit.buf.code_buf ++ q) (hcap : k.code_capacity = s.jit.buf.code_capacity)
    (hfits : k.code_off ≤ jitCapacity) : Cached h ⟨{ s.jit with buf := k }, made'⟩ :=
  ⟨hcap.trans hs.capacity, hfits, fun i hi => ⟨(hs.entry i hi).1, (hs.entry i hi).2.grow hmade hbuf hcap⟩⟩

/-- An entry is put in its place. -/
theorem Cached.insert (hs : Cached h s) {b : Entry} {i : BitVec 16}
    (hb : b.valid = true → cacheIndex b.guest_pc = i ∧ EntryOk h s.made s.jit.buf b) :
    Cached h ⟨{ s.jit with cache := setAt s.jit.cache i b }, s.made⟩ := by
  refine ⟨hs.capacity, hs.fits, fun k hk => ?_⟩
  have hk' : (setAt s.jit.cache i b k).valid = true := hk
  show cacheIndex (setAt s.jit.cache i b k).guest_pc = k ∧ EntryOk h s.made s.jit.buf (setAt s.jit.cache i b k)
  by_cases hki : k = i
  · subst hki
    rw [setAt_self] at hk' ⊢
    exact hb hk'
  · rw [setAt_ne _ _ hki] at hk' ⊢
    exact hs.entry k hk'

/-- A flush empties all. -/
theorem Cached.flush (hs : Cached h s) (made' : List (U64 × Cpu)) : Cached h ⟨jitFlush s.jit, made'⟩ :=
  ⟨hs.capacity, Nat.zero_le _, fun i hi => by cases hi⟩

/-- Other counters. -/
theorem Cached.same (hs : Cached h s) {j : JitState} (hbuf : j.buf = s.jit.buf) (hcache : j.cache = s.jit.cache) :
    Cached h ⟨j, s.made⟩ := by
  refine ⟨by rw [hbuf]; exact hs.capacity, by rw [hbuf]; exact hs.fits, fun i hi => ?_⟩
  have hi' : (s.jit.cache i).valid = true := by
    rw [← hcache]
    exact hi
  have hentry := hs.entry i hi'
  show cacheIndex (j.cache i).guest_pc = i ∧ EntryOk h s.made j.buf (j.cache i)
  rw [hbuf, hcache]
  exact hentry

/-! ## Messages -/

theorem blockWords_le {pc : U64} {c : Cpu} (hcount : blockInsns pc c ≠ 0) : blockWords h pc c ≤ 2445 := by
  have hbody : bodyWords h (scan jitMaxBlockInsns pc c).1 ≤ 37 * (scan jitMaxBlockInsns pc c).1.length :=
    bodyWords_le fun t _ => insnWords_le h t
  have hlen : (scan jitMaxBlockInsns pc c).1.length ≤ 64 := scan_length jitMaxBlockInsns pc c
  have hstop := scan_refused jitMaxBlockInsns pc c
  have htail := tailCode_length (h := h) (scan jitMaxBlockInsns pc c).2.2 hstop
  have hle := tailCode_le h (scan jitMaxBlockInsns pc c).2.2 hstop
  have hepi : epilogueWords = 16 := rfl
  unfold blockInsns at hcount
  unfold blockWords
  dsimp only at hcount ⊢
  rw [if_neg hcount]
  omega

/-- What a worker sends is the code of a block. -/
theorem workerReply_code {m : Request} {data : List U32} (hm : m.message h = some data) :
    (blockInsns m.pc m.cpu = 0 ∧ data = payload m.pc 0 0 []) ∨
      (blockInsns m.pc m.cpu ≠ 0 ∧ (blockCode h m.pc m.cpu).length < 1000 ∧
        ∃ stores, data = payload m.pc (BitVec.ofNat 32 (blockInsns m.pc m.cpu)) stores (blockCode h m.pc m.cpu)) := by
  obtain ⟨pc, c, buf, hcap⟩ := m
  have hflush : buf.flush.code_capacity = workerCapacity := hcap
  have hroom : maxNeeded ≤ buf.flush.code_capacity := by
    rw [hflush]
    decide
  have hmax : buf.flush.code_capacity ≤ jitCapacity := by
    rw [hflush]
    decide
  have hstart : (Arm64.reserve buf.flush).2 = buf.flush := by
    show (if buf.flush.code_capacity < 0 + maxNeeded then _ else _) = _
    rw [if_neg (by omega)]
  obtain ⟨-, -, hnone, hsome⟩ := jitCompileBlock_below h pc c hroom hmax
  unfold Request.message workerReply jitCompileOffline at hm
  dsimp only at hm
  by_cases h0 : blockInsns pc c = 0
  · rw [(hnone h0).1] at hm
    exact .inl ⟨h0, (Option.some.inj hm).symm⟩
  · obtain ⟨b, hb, -, -, hcount⟩ := hsome h0
    have hle := blockWords_le (h := h) h0
    have hworker : workerCapacity = 1048576 := rfl
    obtain ⟨-, hbuf⟩ := jitCompileBlock_code (h := h) hroom hmax (by
      rw [hstart, hflush]
      show 0 + blockWords h pc c ≤ _
      omega) h0
    have hcode : (jitCompileBlock h pc c buf.flush).2.code_buf = blockCode h pc c := by
      rw [hbuf, hstart]
      exact List.nil_append _
    rw [hb] at hm
    dsimp only at hm
    unfold CodeBuf.code_off at hm
    rw [hcode, hcount] at hm
    split at hm
    · next hlt => exact .inr ⟨h0, hlt, _, (Option.some.inj hm).symm⟩
    · cases hm

omit [NetDevice] in
theorem payload_pc (pc : U64) (insns hasStore : U32) (code : List U32) :
    ((payload pc insns hasStore code).getD 1 0 ++ (payload pc insns hasStore code).getD 0 0 : BitVec (32 + 32)) = pc := by
  show ((pc >>> 32).setWidth 32 ++ pc.setWidth 32 : BitVec (32 + 32)) = pc
  refine BitVec.eq_of_getLsbD_eq fun i hi => ?_
  simp only [BitVec.getLsbD_append, BitVec.getLsbD_setWidth, BitVec.getLsbD_ushiftRight]
  by_cases h32 : i < 32
  · simp [h32]
  · have hlt : i - 32 < 32 := by omega
    have hadd : 32 + (i - 32) = i := by omega
    simp [h32, hlt, hadd]

/-- A worker could not compile. -/
theorem Cached.receive_failed (hs : Cached h s) (pc : U64) : Cached h ⟨Arm64.receive (payload pc 0 0 []) s.jit, s.made⟩ := by
  have hlong : ¬ 4 * (payload pc 0 0 []).length < 20 := by
    show ¬ 4 * 5 < 20
    decide
  unfold Arm64.receive
  rw [if_neg hlong, payload_pc]
  dsimp only
  have hnone : (payload pc 0 0 []).getD 4 0 = 0 := rfl
  rw [if_pos hnone]
  split
  · refine hs.insert fun hvalid => ?_
    have hold := hs.entry (cacheIndex pc) hvalid
    exact ⟨hold.1, hold.2.code, hold.2.refused⟩
  · exact hs

/-- A worker has compiled a block. -/
theorem Cached.receive_code (hs : Cached h s) {pc : U64} {cc : Cpu} (hmem : (pc, cc) ∈ s.made) (hcount : blockInsns pc cc ≠ 0)
    (hlen : (blockCode h pc cc).length < 1000) (stores : U32) :
    Cached h ⟨Arm64.receive (payload pc (BitVec.ofNat 32 (blockInsns pc cc)) stores (blockCode h pc cc)) s.jit, s.made⟩ := by
  let code := blockCode h pc cc
  let data := payload pc (BitVec.ofNat 32 (blockInsns pc cc)) stores code
  have hjit : jitCapacity = 2 ^ 24 := rfl
  have hpos : 4 ≤ code.length := by
    have hwords := blockCode_length (h := h) hcount
    show 4 ≤ (blockCode h pc cc).length
    rw [hwords]
    unfold blockWords
    dsimp only
    omega
  have hlong : ¬ 4 * data.length < 20 := by
    show ¬ 4 * (code.length + 5) < 20
    omega
  have hwords : (data.getD 4 0).toNat = code.length := by
    show (BitVec.ofNat 32 code.length).toNat = _
    rw [BitVec.toNat_ofNat]
    exact Nat.mod_eq_of_lt (by show (blockCode h pc cc).length < _; omega)
  have hsome : data.getD 4 0 ≠ 0 := by
    intro h0
    rw [h0] at hwords
    have hz : (0 : U32).toNat = 0 := rfl
    omega
  have hfull : BitVec.ofNat 32 s.jit.buf.code_capacity < BitVec.ofNat 32 s.jit.buf.code_off + data.getD 4 0 ↔
      jitCapacity < s.jit.buf.code_off + code.length := by
    have hfits := hs.fits
    have hlen' : code.length < 1000 := hlen
    rw [BitVec.lt_def, BitVec.toNat_add, BitVec.toNat_ofNat, BitVec.toNat_ofNat, hwords, hs.capacity]
    omega
  have htake : (data.drop 5).take (data.getD 4 0).toNat = code := by
    rw [hwords]
    show code.take code.length = code
    exact List.take_length
  let j1 : JitState := if jitCapacity < s.jit.buf.code_off + code.length then jitFlush s.jit else s.jit
  have h1 : Cached h ⟨j1, s.made⟩ ∧ j1.buf.code_off + code.length ≤ jitCapacity := by
    by_cases hroom : jitCapacity < s.jit.buf.code_off + code.length
    · have hj : j1 = jitFlush s.jit := if_pos hroom
      have hlen' : code.length < 1000 := hlen
      rw [hj]
      refine ⟨hs.flush s.made, ?_⟩
      show 0 + code.length ≤ _
      omega
    · have hj : j1 = s.jit := if_neg hroom
      rw [hj]
      exact ⟨hs, Nat.not_lt.1 hroom⟩
  have h2 := h1.1.grow (k := { j1.buf with code_buf := j1.buf.code_buf ++ code }) (fun _ hx => hx) ⟨code, rfl⟩ rfl (by
    show (j1.buf.code_buf ++ code).length ≤ _
    rw [List.length_append]
    exact h1.2)
  have hreceive : Arm64.receive data s.jit =
      { j1 with
        buf := { j1.buf with code_buf := j1.buf.code_buf ++ code }
        cache := setAt j1.cache (cacheIndex pc)
          ⟨pc, some j1.buf.code_off, BitVec.ofNat 32 (blockInsns pc cc), true, stores, false⟩ } := by
    unfold Arm64.receive
    rw [if_neg hlong, payload_pc]
    dsimp only
    rw [if_neg hsome, htake]
    simp only [hfull]
    rfl
  show Cached h ⟨Arm64.receive data s.jit, s.made⟩
  rw [hreceive]
  refine h2.insert fun _ => ⟨rfl, fun o ho => ?_, fun hnone => by cases hnone⟩
  obtain rfl := Option.some.inj ho
  exact ⟨cc, hmem, hcount, rfl, fun _ => ⟨j1.buf.code_buf, [], rfl, by rw [List.append_nil]⟩⟩

/-- **A message keeps the cache in order.** -/
theorem Cached.receive (hs : Cached h s) (m : Request) : Cached h (s.receive h m) := by
  unfold Traced.receive
  cases hm : m.message h with
  | none => exact hs
  | some data =>
    have hold : Cached h ⟨s.jit, s.made ++ [(m.pc, m.cpu)]⟩ :=
      hs.grow (k := s.jit.buf) (fun x hx => List.mem_append_left _ hx) ⟨[], (List.append_nil _).symm⟩ rfl hs.fits
    rcases workerReply_code hm with ⟨-, rfl⟩ | ⟨hcount, hlen, stores, rfl⟩
    · exact hold.receive_failed m.pc
    · exact hold.receive_code (List.mem_append_right _ List.mem_cons_self) hcount hlen stores

/-! ## Compiling -/

/-- **Compiling at `pc` keeps the cache in order**, and puts the block there if there is one. -/
theorem Cached.compile (hs : Cached h s) (pc : U64) (c : Cpu) :
    let r := compileInto h pc c s.jit
    let t : Traced := ⟨r.2.2, s.made ++ [(pc, c)]⟩
    Cached h t ∧ (r.1 = none → blockInsns pc c = 0) ∧
      ∀ o, r.1 = some o → (t.jit.cache (cacheIndex pc)).valid = true ∧ (t.jit.cache (cacheIndex pc)).guest_pc = pc ∧
        (t.jit.cache (cacheIndex pc)).host_code = some o := by
  intro r t
  let made' := s.made ++ [(pc, c)]
  have hjit : jitCapacity = 2 ^ 24 := rfl
  have hneed : maxNeeded = 1936 := rfl
  have hcap : maxNeeded ≤ s.jit.buf.code_capacity := by
    rw [hs.capacity]
    omega
  have hmax : s.jit.buf.code_capacity ≤ jitCapacity := Nat.le_of_eq hs.capacity
  have hbuf : s.jit.reserve.buf = (Arm64.reserve s.jit.buf).2 := by
    show (if s.jit.buf.code_capacity < s.jit.buf.code_off + maxNeeded then jitFlush s.jit else s.jit).buf =
      if s.jit.buf.code_capacity < s.jit.buf.code_off + maxNeeded then s.jit.buf.flush else s.jit.buf
    split <;> rfl
  have hbase : Cached h ⟨s.jit.reserve, made'⟩ := by
    unfold JitState.reserve
    split
    · exact hs.flush made'
    · exact hs.grow (k := s.jit.buf) (fun x hx => List.mem_append_left _ hx) ⟨[], (List.append_nil _).symm⟩ rfl hs.fits
  obtain ⟨hstarts, hcap', hnone, hsome⟩ := jitCompileBlock_below h pc c hcap hmax
  rw [← hbuf] at hstarts hnone hsome
  have hgrown := hbase.grow (k := (jitCompileBlock h pc c s.jit.buf).2) (fun _ hx => hx) hstarts.words
    (hcap'.trans (hs.capacity.trans hbase.capacity.symm)) (Nat.le_trans hstarts.fits hstarts.capacity)
  by_cases h0 : blockInsns pc c = 0
  · have hr : r = (none, (jitCompileBlock h pc c s.jit.buf).1.2,
        { s.jit.reserve with buf := (jitCompileBlock h pc c s.jit.buf).2 }) := by
      show compileInto h pc c s.jit = _
      unfold compileInto
      dsimp only
      rw [(hnone h0).1]
    refine ⟨?_, fun _ => h0, fun o ho => ?_⟩
    · show Cached h ⟨r.2.2, made'⟩
      rw [hr]
      exact hgrown
    · rw [hr] at ho
      cases ho
  · obtain ⟨b, hb, hguest, hhost, hcount⟩ := hsome h0
    let e : Entry :=
      { s.jit.reserve.cache (cacheIndex b.guest_pc) with
        guest_pc := b.guest_pc
        host_code := some b.host_code
        insn_count := BitVec.ofNat 32 b.insn_count
        valid := true
        has_store := flag b.has_store }
    have hr : r = (some b.host_code, (jitCompileBlock h pc c s.jit.buf).1.2,
        { s.jit.reserve with
          buf := (jitCompileBlock h pc c s.jit.buf).2
          cache := setAt s.jit.reserve.cache (cacheIndex b.guest_pc) e }) := by
      show compileInto h pc c s.jit = _
      unfold compileInto
      dsimp only
      rw [hb]
    have hok : EntryOk h made' (jitCompileBlock h pc c s.jit.buf).2 e := by
      refine ⟨fun o ho => ?_, fun he => by cases he⟩
      obtain rfl : b.host_code = o := Option.some.inj ho
      have hpc : e.guest_pc = pc := hguest
      rw [hpc]
      refine ⟨c, List.mem_append_right _ List.mem_cons_self, h0, congrArg (BitVec.ofNat 32) hcount, fun hroom => ?_⟩
      rw [hcap', hhost, hbuf] at hroom
      have hcode := (jitCompileBlock_code hcap hmax hroom h0).2
      exact ⟨(Arm64.reserve s.jit.buf).2.code_buf, [], by rw [hhost, hbuf]; rfl, by rw [hcode, List.append_nil]⟩
    refine ⟨?_, fun hno => ?_, fun o ho => ?_⟩
    · show Cached h ⟨r.2.2, made'⟩
      rw [hr]
      exact hgrown.insert fun _ => ⟨rfl, hok⟩
    · rw [hr] at hno
      cases hno
    · rw [hr] at ho
      have hat : t.jit.cache (cacheIndex pc) = e := by
        show r.2.2.cache (cacheIndex pc) = e
        rw [hr, ← hguest]
        exact setAt_self ..
      rw [hat]
      exact ⟨rfl, hguest, ho⟩

/-! ## `jit_exec` -/

/-- What `jit_exec` goes by: an entry for the pc. -/
structure Answer (h : Helpers) (s : Traced) (pc : U64) (out : Option Nat) : Prop where
  code : ∀ o, out = some o → ∃ cc, (pc, cc) ∈ s.made ∧ blockInsns pc cc ≠ 0 ∧
    (o + blockWords h pc cc ≤ jitCapacity → Stands (blockCode h pc cc) o s.jit.buf.code_buf)
  refused : out = none → ∃ cc, (pc, cc) ∈ s.made ∧ blockInsns pc cc = 0

theorem EntryOk.answer {b : Entry} (hs : Cached h s) (hb : EntryOk h s.made s.jit.buf b) {out : Option Nat}
    (hout : b.host_code = out) : Answer h s b.guest_pc out := by
  subst hout
  refine ⟨fun o ho => ?_, hb.refused⟩
  obtain ⟨cc, hmem, hne, -, hcode⟩ := hb.code o ho
  rw [hs.capacity] at hcode
  exact ⟨cc, hmem, hne, hcode⟩

theorem Cached.lookup (hs : Cached h s) (c : Cpu) :
    let r := Arm64.lookup h c s.jit
    let t : Traced := ⟨r.2.2, if hits c s.jit then s.made else s.made ++ [(c.pc, c)]⟩
    Cached h t ∧ Answer h t c.pc r.1 := by
  intro r t
  by_cases hit : hits c s.jit = true
  · have hr : r = ((s.jit.cache (cacheIndex c.pc)).host_code, c, { s.jit with stat_hits := s.jit.stat_hits + 1 }) := by
      show Arm64.lookup h c s.jit = _
      unfold Arm64.lookup
      rw [if_pos hit]
    have ht : t = ⟨{ s.jit with stat_hits := s.jit.stat_hits + 1 }, s.made⟩ := by
      show (⟨r.2.2, _⟩ : Traced) = _
      rw [hr, if_pos hit]
    obtain ⟨hvalid, hpc⟩ := Bool.and_eq_true_iff.1 hit
    have hcached : Cached h ⟨{ s.jit with stat_hits := s.jit.stat_hits + 1 }, s.made⟩ := hs.same rfl rfl
    have hok := (hs.entry _ hvalid).2
    have hanswer := EntryOk.answer hcached hok rfl
    rw [eq_of_beq hpc] at hanswer
    rw [ht, hr]
    exact ⟨hcached, hanswer⟩
  · obtain ⟨hcached, hnone, hsome⟩ := hs.compile c.pc c
    have hmade : t.made = s.made ++ [(c.pc, c)] := if_neg hit
    have hmem : (c.pc, c) ∈ s.made ++ [(c.pc, c)] := List.mem_append_right _ List.mem_cons_self
    generalize hout : compileInto h c.pc c s.jit = out at hcached hnone hsome
    obtain ⟨_ | o, c', j⟩ := out
    · have h0 : blockInsns c.pc c = 0 := hnone rfl
      have hr : r = (none, c', { j with
          cache := setAt j.cache (cacheIndex c.pc)
            { j.cache (cacheIndex c.pc) with valid := true, guest_pc := c.pc, host_code := none }
          stat_compile_fail := j.stat_compile_fail + 1 }) := by
        show Arm64.lookup h c s.jit = _
        unfold Arm64.lookup
        rw [if_neg hit, hout]
      have ht : t = ⟨r.2.2, s.made ++ [(c.pc, c)]⟩ := congrArg (Traced.mk r.2.2) hmade
      rw [ht, hr]
      refine ⟨?_, ⟨fun o ho => (by cases ho), fun _ => ⟨c, hmem, h0⟩⟩⟩
      have hput := hcached.insert (i := cacheIndex c.pc)
        (b := { j.cache (cacheIndex c.pc) with valid := true, guest_pc := c.pc, host_code := none })
        fun _ => ⟨rfl, ⟨fun o ho => (by cases ho), fun _ => ⟨c, hmem, h0⟩⟩⟩
      exact hput.same rfl rfl
    · have hr : r = (some o, c', { j with stat_compiles := j.stat_compiles + 1 }) := by
        show Arm64.lookup h c s.jit = _
        unfold Arm64.lookup
        rw [if_neg hit, hout]
      have ht : t = ⟨{ j with stat_compiles := j.stat_compiles + 1 }, s.made ++ [(c.pc, c)]⟩ := by
        show (⟨r.2.2, _⟩ : Traced) = _
        rw [hr, if_neg hit]
      obtain ⟨hvalid, hpc, hhost⟩ := hsome o rfl
      have hcached' : Cached h ⟨{ j with stat_compiles := j.stat_compiles + 1 }, s.made ++ [(c.pc, c)]⟩ :=
        hcached.same rfl rfl
      have hok := (hcached.entry _ hvalid).2
      have hanswer := EntryOk.answer hcached' hok hhost
      rw [hpc] at hanswer
      rw [ht, hr]
      exact ⟨hcached', hanswer⟩

theorem Cached.poll (hs : Cached h s) (msgs : List Request) : Cached h (msgs.foldl (Traced.receive h) s) := by
  induction msgs generalizing s with
  | nil => exact hs
  | cons m msgs ih => exact ih (hs.receive m)

theorem Cached.answer (hs : Cached h s) (msgs : List Request) (c : Cpu) (hon : (!s.jit.enabled || c.halted) = false) :
    Answer h (s.exec h msgs c) c.pc (jitExec h (msgs.filterMap (·.message h)) c s.jit).1 := by
  have hanswer := ((hs.poll msgs).lookup c).2
  unfold Traced.exec jitExec
  rw [hon, if_neg Bool.false_ne_true, if_neg Bool.false_ne_true, ← poll_jit]
  exact hanswer

theorem Cached.exec (hs : Cached h s) (msgs : List Request) (c : Cpu) : Cached h (s.exec h msgs c) := by
  unfold Traced.exec
  split
  · exact hs
  · exact ((hs.poll msgs).lookup c).1

theorem cached_init : Cached h Traced.init := ⟨rfl, Nat.zero_le _, fun i hi => by cases hi⟩

theorem JitMove.cached {t : Traced} (hm : JitMove h s t) (hs : Cached h s) : Cached h t := by
  cases hm with
  | exec msgs c => exact hs.exec msgs c
  | ran n => exact hs.same rfl rfl
  | flush => exact hs.flush []
  | invalidate => exact ⟨hs.capacity, hs.fits, fun i hi => by cases hi⟩

theorem JitRun.cached (hr : JitRun h Traced.init s) : Cached h s := by
  induction hr with
  | refl => exact cached_init
  | tail _ hm ih => exact hm.cached ih

/-- How `jit_exec` calls a block that was compiled at `pc` for `cc`: with the CPU in x0 and a frame below the stack. -/
structure Called (e : Place) (pc : U64) (cc d : Cpu) (m : State) : Prop where
  separate : Separate e d.ram_size
  zero : d.x 0 = 0
  cpu : m.x 0 = e.base
  sp : m.sp = e.sp + 48
  rep : Represents e.base e.ram m.mem d
  pages : PagesKept (scan jitMaxBlockInsns pc cc).1 ⟨d, m.x 19, 0⟩

/-- **What `jit_exec` calls is a block that was compiled at this pc since the last flush**, here or by a worker, and where it
had room the call returns and has run it; what it gives up on could not be compiled. -/
theorem jitExec_returns (hfn : h.fn_load ≠ h.fn_store) (hrun : JitRun h Traced.init s) (msgs : List Request) (c : Cpu)
    (hon : (!s.jit.enabled || c.halted) = false) :
    let out := jitExec h (msgs.filterMap (·.message h)) c s.jit
    let made := (s.exec h msgs c).made
    (∀ o, out.1 = some o → ∃ cc, (c.pc, cc) ∈ made ∧ blockInsns c.pc cc ≠ 0 ∧
      (o + blockWords h c.pc cc ≤ jitCapacity → ∀ e d m, Called e c.pc cc d m →
        let r := armBlock c.pc cc ⟨d, m.x 19, 0⟩
        Finishes (HelperCall h e) (fun w target t => w = hidden r.cpu ∧ Returned e m r target t) (hidden d)
          (out.2.2.buf.code_buf.drop o) m)) ∧
    (out.1 = none → ∃ cc, (c.pc, cc) ∈ made ∧ blockInsns c.pc cc = 0) := by
  intro out made
  have hanswer := hrun.cached.answer msgs c hon
  refine ⟨fun o ho => ?_, hanswer.refused⟩
  obtain ⟨cc, hmem, hne, hstands⟩ := hanswer.code o ho
  refine ⟨cc, hmem, hne, fun hroom e d m hc => ?_⟩
  obtain ⟨pre, q, hpre, hbuf⟩ := hstands hroom
  have hjit : out.2.2 = (s.exec h msgs c).jit := (exec_jit h msgs c s).symm
  rw [hjit, hbuf, ← hpre, List.drop_left]
  exact (blockCode_finishes hfn hc.separate hc.zero hc.cpu hc.sp hc.rep hc.pages).append q

end Invariant

end Cache

/-! ## A cache that shows it -/

section Instances

local instance cacheNet : NetDevice := NetDevice.silent

/-- Called at the base of the CPU, where the page of the UART is in the TLB. -/
theorem poll_called : Called onesPlace ramBase (textCpu pollProgram) pollCpu pollEntry := by
  have hpages : PagesKept (scan jitMaxBlockInsns ramBase (textCpu pollProgram)).1 ⟨pollCpu, pollEntry.x 19, 0⟩ := by
    rw [scan_poll]
    exact poll_pages _
  exact ⟨pollCpu_separate, rfl, rfl, rfl, pollMem_represents, hpages⟩

/-- The first block that is looked up stands at the start of the buffer. -/
theorem jitExec_poll : (jitExec highHelpers [] (textCpu pollProgram) jitInit).1 = some 0 := by
  have hcode := jitCompileBlock_code (h := highHelpers) (c := textCpu pollProgram) (j := emptyBuf) (by decide) (by decide)
    poll_room poll_counts
  dsimp only at hcode
  obtain ⟨⟨b, hb, -, hhost, -⟩, -⟩ := hcode
  have hpc : (textCpu pollProgram).pc = ramBase := rfl
  have hbuf : jitInit.buf = emptyBuf := rfl
  have hmiss : hits (textCpu pollProgram) jitInit = false := rfl
  have hoff : (reserve emptyBuf).2.code_off = 0 := by decide
  have hon : (!jitInit.enabled || (textCpu pollProgram).halted) = false := rfl
  have hpoll : poll [] jitInit = jitInit := rfl
  unfold jitExec
  rw [hon, if_neg Bool.false_ne_true, hpoll, lookup_miss hmiss, hpc, hbuf, hb, Option.map_some, hhost, hoff]

/-- **The driver, on its first run**: it is compiled at the start of the buffer and called there, and calls both helpers. -/
theorem jitExec_returns_poll :
    let out := jitExec highHelpers (([] : List Request).filterMap (·.message highHelpers)) (textCpu pollProgram) Traced.init.jit
    out.1 = some 0 ∧ Finishes (HelperCall highHelpers onesPlace) (fun w target t =>
        let r := armBlock ramBase (textCpu pollProgram) ⟨pollCpu, pollEntry.x 19, 0⟩
        w = hidden r.cpu ∧ Returned onesPlace pollEntry r target t) (hidden pollCpu) (out.2.2.buf.code_buf.drop 0) pollEntry := by
  have hmade : (Traced.init.exec highHelpers [] (textCpu pollProgram)).made = [(ramBase, textCpu pollProgram)] := rfl
  obtain ⟨cc, hmem, -, hcode⟩ :=
    (jitExec_returns (h := highHelpers) (by decide) .refl [] (textCpu pollProgram) rfl).1 0 jitExec_poll
  rw [hmade] at hmem
  obtain rfl : cc = textCpu pollProgram := congrArg Prod.snd (List.mem_singleton.1 hmem)
  exact ⟨jitExec_poll, hcode poll_room onesPlace pollCpu pollEntry poll_called⟩

end Instances

end Arm64
end PgLinux
