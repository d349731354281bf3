import PgLinux.Worker
/-!
# ConsoleInput — `vm_type` and `vm_send`, from the SQL call to the UART

The string is copied into the 1024 bytes of `input_buf`, the worker reads it up to its NUL and pushes each byte into the
UART's ring of 256 slots.  The guest does not run in between, so a call queues what fits into the ring and no more.
-/
namespace PgLinux

/-! ## The ring -/

/-- The bytes received and not yet read, oldest first. -/
def Uart.queued (u : Uart) : List U8 :=
  (List.range (u.rx_head - u.rx_tail).toNat).map fun i => u.rx_buf (u.rx_tail + BitVec.ofNat 8 i)

theorem Uart.queued_length (u : Uart) : u.queued.length = (u.rx_head - u.rx_tail).toNat := by simp [Uart.queued]

theorem Uart.queued_length_le (u : Uart) : u.queued.length ≤ 255 := by
  have := (u.rx_head - u.rx_tail).isLt
  rw [u.queued_length]
  omega

/-- The ring is full when its next head would be its tail. -/
theorem ring_full_iff (u : Uart) : u.rx_head + 1 = u.rx_tail ↔ u.queued.length = 255 := by
  rw [u.queued_length, show (255 : Nat) = (255 : U8).toNat from rfl, BitVec.toNat_inj]
  constructor <;> intro h <;> bv_omega

/-- **A received byte is queued last, unless the ring is full.** -/
theorem uartRx_queued (b : Bus) (ch : U8) : (uartRx b ch).uart.queued = (b.uart.queued ++ [ch]).take 255 := by
  have hle := b.uart.queued_length_le
  unfold uartRx
  dsimp only
  by_cases hfull : b.uart.rx_head + 1 = b.uart.rx_tail
  · have hlen := (ring_full_iff b.uart).1 hfull
    rw [if_neg (not_not_intro hfull), List.take_append_of_le_length (by omega), List.take_of_length_le (by omega)]
  · have hlt : b.uart.queued.length < 255 := by
      have := mt (ring_full_iff b.uart).2 hfull
      omega
    rw [if_pos hfull, List.take_of_length_le (by simp; omega)]
    rw [b.uart.queued_length] at hlt
    have hcount : (b.uart.rx_head + 1 - b.uart.rx_tail).toNat = (b.uart.rx_head - b.uart.rx_tail).toNat + 1 := by
      bv_omega
    unfold Uart.queued
    dsimp only
    rw [hcount, List.range_succ, List.map_append, List.map_singleton]
    congr 1
    · apply List.map_congr_left
      intro i hi
      rw [List.mem_range] at hi
      have hne : b.uart.rx_tail + BitVec.ofNat 8 i ≠ b.uart.rx_head := by
        intro heq
        rw [← heq] at hi
        bv_omega
      exact if_neg hne
    · have hslot : b.uart.rx_tail + BitVec.ofNat 8 (b.uart.rx_head - b.uart.rx_tail).toNat = b.uart.rx_head := by
        bv_omega
      rw [hslot]
      simp [setAt]

def Cpu.rx (c : Cpu) (ch : U8) : Cpu := { c with bus := uartRx c.bus ch }

theorem take_append_take (q bs : List U8) (c : U8) : ((q ++ [c]).take 255 ++ bs).take 255 = (q ++ c :: bs).take 255 := by
  rcases Nat.lt_or_ge q.length 255 with h | h
  · rw [List.take_of_length_le (l := q ++ [c]) (by simp; omega), List.append_assoc, List.singleton_append]
  · rw [List.take_append_of_le_length h, List.take_append_of_le_length (by simp; omega), List.take_take,
      List.take_append_of_le_length h]
    rfl

theorem rx_queued : ∀ (bs : List U8) (c : Cpu), (bs.foldl Cpu.rx c).bus.uart.queued = (c.bus.uart.queued ++ bs).take 255
  | [], c => by
    rw [List.append_nil, List.take_of_length_le c.bus.uart.queued_length_le]
    rfl
  | b :: bs, c => by
    rw [List.foldl_cons, rx_queued bs, ← take_append_take]
    congr 2
    exact uartRx_queued c.bus b

/-! ## The calls -/

/-- A value of type `text`: PostgreSQL admits no NUL byte. -/
structure PgText where
  bytes : List U8
  no_nul : ∀ b ∈ bytes, b ≠ 0

/-- What the two calls use of the shared state, and the worker's machine. -/
structure InputState where
  worker_ready : Bool
  input_buf : Nat → U8
  vm_cpu : Option Cpu

inductive InputCall where
  | type | send
deriving DecidableEq

def newline : U8 := 10

/-- The body of `vm_type`. -/
def vmTypeBuf (buf : Nat → U8) (str : List U8) : Nat → U8 :=
  let len := if 1023 < str.length then 1023 else str.length
  fun i => if i < len then str.getD i 0 else if i = len then 0 else buf i

/-- `strncpy(buf, input, n)`, which pads with zeros. -/
def strncpy (buf : Nat → U8) (input : List U8) (n : Nat) : Nat → U8 := fun i => if i < n then input.getD i 0 else buf i

/-- The body of `vm_send`. -/
def vmSendBuf (buf : Nat → U8) (input : List U8) : Nat → U8 :=
  let len := input.length
  let copied := strncpy buf input 1022
  if 0 < len ∧ input.getD (len - 1) 0 ≠ newline ∧ len < 1022 then setAt (setAt copied len newline) (len + 1) 0
  else setAt copied 1023 0

/-- The loop of `VM_CMD_SEND` from index `i`, with `n` bytes of the buffer to go. -/
def sendLoop (buf : Nat → U8) : Nat → Nat → Option Cpu → Option Cpu
  | 0, _, c => c
  | n + 1, i, c => if buf i = 0 then c else sendLoop buf n (i + 1) (c.map fun c => c.rx (buf i))

def InputCall.fill : InputCall → (Nat → U8) → List U8 → Nat → U8
  | .type => vmTypeBuf
  | .send => vmSendBuf

/-- `vm_type` and `vm_send`; `none` is the error they raise without a worker. -/
def InputCall.run (call : InputCall) (t : PgText) (s : InputState) : Option InputState :=
  if !s.worker_ready then none
  else
    let buf := call.fill s.input_buf t.bytes
    some { s with input_buf := buf, vm_cpu := sendLoop buf 1024 0 s.vm_cpu }

/-- What the guest has to read. -/
def InputState.queued (s : InputState) : List U8 :=
  match s.vm_cpu with
  | none => []
  | some c => c.bus.uart.queued

def withNewline (input : List U8) : List U8 := if input.getLast? = some newline then input else input ++ [newline]

/-- The bytes a call has to deliver. -/
def InputCall.bytes : InputCall → List U8 → List U8
  | .type, str => str
  | .send, input => withNewline input

/-- The call, if it raises no error, queues its bytes behind those already queued. -/
def Delivers (call : InputCall) (t : PgText) (s : InputState) : Prop :=
  ∀ s', call.run t s = some s' → s'.queued = s.queued ++ call.bytes t.bytes

/-! ## The worker's loop -/

/-- The C string at index `k` of the buffer. -/
def StringAt (buf : Nat → U8) : Nat → List U8 → Prop
  | k, [] => buf k = 0
  | k, b :: bs => buf k = b ∧ b ≠ 0 ∧ StringAt buf (k + 1) bs

theorem stringAt_of {buf : Nat → U8} : ∀ {bs : List U8} {k : Nat}, (∀ i (hi : i < bs.length), buf (k + i) = bs[i]) →
    buf (k + bs.length) = 0 → (∀ b ∈ bs, b ≠ 0) → StringAt buf k bs
  | [], _, _, hend, _ => hend
  | b :: bs, k, hat, hend, hnul => by
    refine ⟨hat 0 (Nat.zero_lt_succ _), hnul b List.mem_cons_self, stringAt_of (fun i hi => ?_) ?_ fun a ha => ?_⟩
    · have := hat (i + 1) (Nat.succ_lt_succ hi)
      rwa [Nat.add_assoc, Nat.add_comm 1 i]
    · rw [List.length_cons] at hend
      rwa [Nat.add_assoc, Nat.add_comm 1]
    · exact hnul a (List.mem_cons_of_mem _ ha)

/-- **The loop pushes the string and stops at its NUL**, inside the buffer. -/
theorem sendLoop_string {buf : Nat → U8} {bs : List U8} {n k : Nat} {c : Option Cpu} (h : StringAt buf k bs)
    (hn : bs.length < n) : sendLoop buf n k c = c.map fun c => bs.foldl Cpu.rx c := by
  obtain ⟨n, rfl⟩ : ∃ m, n = m + 1 := ⟨n - 1, by omega⟩
  induction bs generalizing n k c with
  | nil =>
    have hend : buf k = 0 := h
    unfold sendLoop
    rw [if_pos hend]
    cases c <;> rfl
  | cons b bs ih =>
    obtain ⟨hb, hnul, hrest⟩ := h
    rw [List.length_cons] at hn
    obtain ⟨n, rfl⟩ : ∃ m, n = m + 1 := ⟨n - 1, by omega⟩
    unfold sendLoop
    rw [hb, if_neg hnul, ih hrest n (by omega)]
    cases c <;> rfl

/-! ## What the buffer holds -/

theorem getD_of_lt {bs : List U8} {i : Nat} (h : i < bs.length) : bs.getD i 0 = bs[i] := by
  rw [List.getD_eq_getElem?_getD, List.getElem?_eq_getElem h]
  rfl

theorem strncpy_of_lt (buf : Nat → U8) {input : List U8} {n i : Nat} (hi : i < input.length) (hn : i < n) :
    strncpy buf input n i = input[i] := by
  unfold strncpy
  rw [if_pos hn, getD_of_lt hi]

theorem strncpy_pad (buf : Nat → U8) {input : List U8} {n i : Nat} (hi : input.length ≤ i) (hn : i < n) :
    strncpy buf input n i = 0 := by
  unfold strncpy
  rw [if_pos hn, List.getD_eq_getElem?_getD, List.getElem?_eq_none hi]
  rfl

theorem vmTypeBuf_string (buf : Nat → U8) (t : PgText) : StringAt (vmTypeBuf buf t.bytes) 0 (t.bytes.take 1023) := by
  have hlen : (if 1023 < t.bytes.length then 1023 else t.bytes.length) = (t.bytes.take 1023).length := by
    rw [List.length_take]
    split <;> omega
  unfold vmTypeBuf
  rw [hlen]
  refine stringAt_of (fun i hi => ?_) (by simp) fun b hb => t.no_nul b (List.mem_of_mem_take hb)
  have hle := List.length_take_le' 1023 t.bytes
  rw [Nat.zero_add, if_pos hi, getD_of_lt (by omega), List.getElem_take]

theorem getLast_ne_newline {bs : List U8} (hpos : 0 < bs.length) :
    bs.getD (bs.length - 1) 0 ≠ newline ↔ bs.getLast? ≠ some newline := by
  rw [List.getLast?_eq_getElem?, getD_of_lt (by omega), List.getElem?_eq_getElem (by omega)]
  simp

/-- A string shorter than 1022 bytes arrives whole. -/
theorem vmSendBuf_string (buf : Nat → U8) (t : PgText) (hpos : t.bytes ≠ []) (hlt : t.bytes.length < 1022) :
    StringAt (vmSendBuf buf t.bytes) 0 (withNewline t.bytes) := by
  have hlen : 0 < t.bytes.length := List.length_pos_iff.2 hpos
  unfold vmSendBuf withNewline
  dsimp only
  by_cases hlast : t.bytes.getLast? = some newline
  · rw [if_pos hlast, if_neg fun h => (getLast_ne_newline hlen).1 h.2.1 hlast]
    refine stringAt_of (fun i hi => ?_) ?_ t.no_nul
    · unfold setAt
      rw [if_neg (by omega), Nat.zero_add, strncpy_of_lt buf hi (by omega)]
    · unfold setAt
      rw [if_neg (by omega), Nat.zero_add, strncpy_pad buf (Nat.le_refl _) hlt]
  · rw [if_neg hlast, if_pos ⟨hlen, (getLast_ne_newline hlen).2 hlast, hlt⟩]
    refine stringAt_of (fun i hi => ?_) (by simp [setAt]) fun b hb => ?_
    · rw [List.length_append, List.length_singleton] at hi
      unfold setAt
      rw [Nat.zero_add, if_neg (by omega)]
      by_cases hi' : i = t.bytes.length
      · subst hi'
        simp
      · rw [if_neg hi', strncpy_of_lt buf (by omega) (by omega), List.getElem_append_left (by omega)]
    · rcases List.mem_append.1 hb with hb | hb
      · exact t.no_nul b hb
      · rw [List.mem_singleton.1 hb]
        decide

theorem vmSendBuf_empty (buf : Nat → U8) : StringAt (vmSendBuf buf []) 0 [] := by
  simp [StringAt, vmSendBuf, setAt, strncpy]

/-- A longer one is cut to 1022 bytes, and what byte 1022 held before may follow. -/
theorem vmSendBuf_long (buf : Nat → U8) (t : PgText) (hlen : 1022 ≤ t.bytes.length) :
    ∃ rest, rest.length ≤ 1 ∧ (buf 1022 = 0 → rest = []) ∧ StringAt (vmSendBuf buf t.bytes) 0 (t.bytes.take 1022 ++ rest) := by
  have htake : (t.bytes.take 1022).length = 1022 := by
    rw [List.length_take]
    omega
  have hbuf : vmSendBuf buf t.bytes = setAt (strncpy buf t.bytes 1022) 1023 0 := if_neg fun h => by omega
  have hcut : ∀ i, i < 1022 → ∀ hi : i < (t.bytes.take 1022).length,
      vmSendBuf buf t.bytes i = (t.bytes.take 1022)[i] := by
    intro i hlt hi
    rw [hbuf]
    unfold setAt
    rw [if_neg (by omega), strncpy_of_lt buf (by omega) hlt, List.getElem_take]
  have hstale : vmSendBuf buf t.bytes 1022 = buf 1022 := by
    rw [hbuf]
    rfl
  by_cases hnul : buf 1022 = 0
  · refine ⟨[], Nat.zero_le 1, fun _ => rfl, ?_⟩
    rw [List.append_nil]
    refine stringAt_of (fun i hi => ?_) ?_ fun b hb => t.no_nul b (List.mem_of_mem_take hb)
    · rw [Nat.zero_add]
      exact hcut i (by omega) hi
    · rw [htake, Nat.zero_add, hstale, hnul]
  · refine ⟨[buf 1022], Nat.le_refl 1, fun h => absurd h hnul, stringAt_of (fun i hi => ?_) ?_ fun b hb => ?_⟩
    · rw [List.length_append, htake, List.length_singleton] at hi
      rw [Nat.zero_add]
      by_cases hlt : i < 1022
      · rw [List.getElem_append_left (by omega), hcut i hlt]
      · obtain rfl : i = 1022 := by omega
        rw [hstale, List.getElem_append_right (by omega)]
        simp
    · rw [List.length_append, htake, hbuf]
      rfl
    · rcases List.mem_append.1 hb with hb | hb
      · exact t.no_nul b (List.mem_of_mem_take hb)
      · rw [List.mem_singleton.1 hb]
        exact hnul

/-! ## Delivery -/

/-- **What a call leaves in the ring**: a string of at most 1023 bytes, cut where the ring is full.  A string that is
neither empty nor too long for the buffer is the one to deliver. -/
theorem InputCall.run_queued (call : InputCall) (t : PgText) (s : InputState) (hready : s.worker_ready = true) :
    ∃ bs s', call.run t s = some s' ∧
      s'.queued = (match s.vm_cpu with | none => [] | some c => (c.bus.uart.queued ++ bs).take 255) ∧
      (call = .send ∧ t.bytes = [] ∧ bs = [] ∨
        ¬ (call = .send ∧ t.bytes = []) ∧ ((call.bytes t.bytes).length ≤ 255 → bs = call.bytes t.bytes)) := by
  have hrun : ∀ bs, bs.length < 1024 → StringAt (call.fill s.input_buf t.bytes) 0 bs → ∃ s', call.run t s = some s' ∧
      s'.queued = (match s.vm_cpu with | none => [] | some c => (c.bus.uart.queued ++ bs).take 255) := by
    intro bs hlen hstr
    refine ⟨_, if_neg (by rw [hready]; decide), ?_⟩
    unfold InputState.queued
    dsimp only
    rw [sendLoop_string hstr hlen]
    cases s.vm_cpu with
    | none => rfl
    | some c => exact rx_queued bs c
  cases call with
  | type =>
    obtain ⟨s', hs', hq⟩ := hrun (t.bytes.take 1023) (by rw [List.length_take]; omega) (vmTypeBuf_string _ t)
    refine ⟨_, s', hs', hq, .inr ⟨fun h => (nomatch h.1), fun hfits => List.take_of_length_le ?_⟩⟩
    exact Nat.le_trans hfits (by omega)
  | send =>
    by_cases hempty : t.bytes = []
    · obtain ⟨s', hs', hq⟩ := hrun [] (by decide) (by rw [hempty]; exact vmSendBuf_empty _)
      exact ⟨_, s', hs', hq, .inl ⟨rfl, hempty, rfl⟩⟩
    · have hle : t.bytes.length ≤ (withNewline t.bytes).length ∧ (withNewline t.bytes).length ≤ t.bytes.length + 1 := by
        unfold withNewline
        split <;> simp
      by_cases hlt : t.bytes.length < 1022
      · obtain ⟨s', hs', hq⟩ := hrun (withNewline t.bytes) (by omega) (vmSendBuf_string _ t hempty hlt)
        exact ⟨_, s', hs', hq, .inr ⟨fun h => hempty h.2, fun _ => rfl⟩⟩
      · obtain ⟨rest, hrest, -, hstr⟩ := vmSendBuf_long s.input_buf t (by omega)
        obtain ⟨s', hs', hq⟩ := hrun _ (by rw [List.length_append, List.length_take]; omega) hstr
        refine ⟨_, s', hs', hq, .inr ⟨fun h => hempty h.2, fun hfits => ?_⟩⟩
        have hshort : (withNewline t.bytes).length ≤ 255 := hfits
        omega

/-- The ring has room for what the call has to deliver, and the string is not the empty one of `vm_send`. -/
def Fits (call : InputCall) (t : PgText) (s : InputState) : Prop :=
  ¬ (call = .send ∧ t.bytes = []) ∧
    (call.bytes t.bytes = [] ∨ ∃ c, s.vm_cpu = some c ∧ c.bus.uart.queued.length + (call.bytes t.bytes).length ≤ 255)

theorem take_eq_append_iff {q bs bytes : List U8} (hq : q.length ≤ 255) (h : bytes.length ≤ 255 → bs = bytes) :
    (q ++ bs).take 255 = q ++ bytes ↔ q.length + bytes.length ≤ 255 := by
  constructor
  · intro heq
    have hlen := congrArg List.length heq
    rw [List.length_take, List.length_append, List.length_append] at hlen
    omega
  · intro hfits
    rw [h (by omega)]
    exact List.take_of_length_le (by rw [List.length_append]; exact hfits)

/-- **A call that is accepted delivers its bytes exactly when they fit into the ring of a booted machine**, `vm_send` of
an empty string apart. -/
theorem delivers_iff (call : InputCall) (t : PgText) (s : InputState) :
    Delivers call t s ↔ (s.worker_ready = true → Fits call t s) := by
  cases hready : s.worker_ready with
  | false =>
    have hnone : call.run t s = none := if_pos (by rw [hready]; decide)
    refine ⟨fun _ h => (nomatch h), fun _ s' hs' => ?_⟩
    rw [hnone] at hs'
    cases hs'
  | true =>
    obtain ⟨bs, s', hs', hq, hbs⟩ := call.run_queued t s hready
    have hdel : Delivers call t s ↔ s'.queued = s.queued ++ call.bytes t.bytes := by
      constructor
      · intro h
        exact h s' hs'
      · intro h r hr
        rw [hs'] at hr
        obtain rfl := Option.some.inj hr
        exact h
    rw [hdel, hq]
    simp only [true_implies]
    unfold InputState.queued Fits
    rcases hbs with ⟨rfl, hempty, rfl⟩ | ⟨hne, hbs⟩
    · have hbytes : InputCall.send.bytes t.bytes = [newline] := by
        rw [hempty]
        rfl
      rw [hbytes]
      refine ⟨fun h => ?_, fun h => absurd ⟨rfl, hempty⟩ h.1⟩
      exfalso
      cases hc : s.vm_cpu with
      | none =>
        rw [hc] at h
        cases h
      | some c =>
        rw [hc] at h
        dsimp only at h
        rw [List.append_nil, List.take_of_length_le c.bus.uart.queued_length_le] at h
        simpa using congrArg List.length h
    · cases hc : s.vm_cpu with
      | none =>
        rw [List.nil_append]
        constructor
        · intro h
          exact ⟨hne, .inl h.symm⟩
        · rintro ⟨-, h | ⟨c, hcpu, -⟩⟩
          · exact h.symm
          · cases hcpu
      | some c =>
        dsimp only
        rw [take_eq_append_iff c.bus.uart.queued_length_le hbs]
        have hle := c.bus.uart.queued_length_le
        simp only [Option.some.injEq, exists_eq_left', hne, not_false_eq_true, true_and]
        constructor
        · exact .inr
        · rintro (h | h)
          · rw [h]
            simpa using hle
          · exact h

section Instances

/-- A line of 300 bytes. -/
def longLine : PgText := ⟨List.replicate 300 0x61, fun b hb => by rw [List.eq_of_mem_replicate hb]; decide⟩

/-- 300 bytes typed into a machine that was just booted: 45 are dropped. -/
theorem not_delivers_longLine : ¬ Delivers .type longLine ⟨true, fun _ => 0, some (rv64Init (fun _ => 0) vmRamSize)⟩ := by
  intro h
  obtain ⟨bs, s', hs', hq, -⟩ := InputCall.run_queued .type longLine
    ⟨true, fun _ => 0, some (rv64Init (fun _ => 0) vmRamSize)⟩ rfl
  have hlen := congrArg List.length (hq.symm.trans (h s' hs'))
  rw [List.length_take, List.length_append, List.length_append] at hlen
  have hline : (InputCall.type.bytes longLine.bytes).length = 300 := List.length_replicate
  omega

end Instances

end PgLinux
