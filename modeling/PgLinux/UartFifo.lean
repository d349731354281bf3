import PgLinux.ConsoleInput
import PgLinux.Interrupts
/-!
# UartFifo — the receive ring of the UART (`uart_load`, `rv64_uart_rx`)

The events are injected characters and the guest's bus accesses, to the UART or anywhere else.  `accepted` and `returned`
are ghosts: the characters that entered the ring, and the values of the receive-register reads that found data.
-/
namespace PgLinux

/-- The injection of `ch` moves the head of the ring. -/
def accepts (b : Bus) (ch : U8) : Bool := (uartRx b ch).uart.rx_head != b.uart.rx_head

/-- A read of the receive register, which divisor access hides, while the ring holds a character. -/
def readsData (b : Bus) (addr : U64) : Bool := decide (addr = uart0Base) && !b.uart.dlab && b.uart.rx_head != b.uart.rx_tail

structure RxRun where
  bus : Bus
  accepted : List U8
  returned : List U64

inductive UartEvent where
  | rx (ch : U8)
  | load (addr : U64) (size : Nat)
  | store (addr : U64) (size : Nat) (val : U64)

/-- What the receive side promises: the flag says whether the ring is empty, and what was accepted is what was returned
and then what is queued. -/
structure RxFifo (s : RxRun) : Prop where
  ready : s.bus.uart.rx_ready = true ↔ s.bus.uart.queued ≠ []
  order : s.accepted.map (BitVec.setWidth 64) = s.returned ++ s.bus.uart.queued.map (BitVec.setWidth 64)

/-! ## The ring -/

theorem queued_eq_nil (u : Uart) : u.queued = [] ↔ u.rx_head = u.rx_tail := by
  rw [← List.length_eq_zero_iff, u.queued_length]
  constructor <;> intro h <;> bv_omega

theorem rxWf_iff (b : Bus) : RxWf b ↔ (b.uart.rx_ready = true ↔ b.uart.queued ≠ []) := by
  unfold RxWf
  rw [ne_eq, queued_eq_nil, Bool.eq_iff_iff, bne_iff_ne]

theorem queued_congr {u v : Uart} (hbuf : v.rx_buf = u.rx_buf) (hhead : v.rx_head = u.rx_head)
    (htail : v.rx_tail = u.rx_tail) : v.queued = u.queued := by
  unfold Uart.queued
  rw [hbuf, hhead, htail]

/-- **A character is accepted exactly when fewer than 255 are queued.** -/
theorem accepts_iff (b : Bus) (ch : U8) : accepts b ch = true ↔ b.uart.queued.length < 255 := by
  have hle := b.uart.queued_length_le
  have hfull := ring_full_iff b.uart
  unfold accepts uartRx
  dsimp only
  by_cases h : b.uart.rx_head + 1 = b.uart.rx_tail
  · rw [if_neg (not_not_intro h)]
    simp [hfull.1 h]
  · have hne : b.uart.rx_head + 1 ≠ b.uart.rx_head := by bv_omega
    rw [if_pos h]
    simp only [bne_iff_ne, ne_eq, hne, not_false_eq_true, true_iff]
    have := mt hfull.2 h
    omega

theorem uartRx_queued_eq (b : Bus) (ch : U8) :
    (uartRx b ch).uart.queued = b.uart.queued ++ if accepts b ch then [ch] else [] := by
  have hle := b.uart.queued_length_le
  have hacc := accepts_iff b ch
  rw [uartRx_queued]
  by_cases h : accepts b ch = true
  · have hlt := hacc.1 h
    rw [if_pos h, List.take_of_length_le (by simp; omega)]
  · have hfull : b.uart.queued.length = 255 := by
      have := mt hacc.2 h
      omega
    rw [if_neg h, List.take_append_of_le_length (by omega), List.take_of_length_le (by omega), List.append_nil]

/-- The oldest queued character is the one at the tail. -/
theorem queued_cons {u : Uart} (h : u.rx_head ≠ u.rx_tail) :
    u.queued = u.rx_buf u.rx_tail :: { u with rx_tail := u.rx_tail + 1 }.queued := by
  have hcount : (u.rx_head - u.rx_tail).toNat = (u.rx_head - (u.rx_tail + 1)).toNat + 1 := by bv_omega
  unfold Uart.queued
  dsimp only
  rw [hcount, List.range_succ_eq_map, List.map_cons, List.map_map]
  congr 1
  · rw [show u.rx_tail + BitVec.ofNat 8 0 = u.rx_tail from BitVec.add_zero _]
  · refine List.map_congr_left fun i _ => congrArg u.rx_buf ?_
    show u.rx_tail + BitVec.ofNat 8 (i + 1) = u.rx_tail + 1#8 + BitVec.ofNat 8 i
    rw [Nat.add_comm, BitVec.ofNat_add, BitVec.add_assoc]

/-! ## One access -/

theorem busLoad_uart0 (ramSize : U64) (b : Bus) (size : Nat) :
    busLoad ramSize b uart0Base size = ((uartLoad b.uart 0).1, { b with uart := (uartLoad b.uart 0).2 }) := by
  have hram : inRam ramSize uart0Base = false := by
    unfold inRam inRange
    rw [show decide (ramBase ≤ uart0Base) = false from rfl, Bool.false_and]
  unfold busLoad
  rw [if_neg (by rw [hram]; decide)]
  rfl

/-- A load reaches the UART at the register it names, or not at all. -/
theorem busLoad_uart (ramSize : U64) (b : Bus) (addr : U64) (size : Nat) :
    (busLoad ramSize b addr size).2.uart = b.uart ∨
      (busLoad ramSize b addr size).2.uart = (uartLoad b.uart (addr - uart0Base)).2 := by
  unfold busLoad mmioLoad
  dsimp only
  split_ifs
  all_goals first | exact .inl rfl | exact .inr rfl

/-- Only the receive register moves the ring, and only with a character in it. -/
theorem uartLoad_queued {u : Uart} {offset : U64} (h : offset ≠ 0 ∨ u.dlab = true ∨ u.rx_head = u.rx_tail) :
    (uartLoad u offset).2.queued = u.queued := by
  unfold uartLoad
  dsimp only
  by_cases h0 : offset = 0
  · rw [if_pos h0]
    cases hdlab : u.dlab with
    | true => rfl
    | false =>
      have hempty : u.rx_head = u.rx_tail := by simpa [h0, hdlab] using h
      rw [if_neg Bool.false_ne_true, if_neg (not_not_intro hempty)]
      rfl
  · rw [if_neg h0]
    split_ifs <;> rfl

/-- **A load that reads data takes the oldest character off; any other leaves the ring as it is.** -/
theorem busLoad_queued (ramSize : U64) (b : Bus) (addr : U64) (size : Nat) :
    b.uart.queued.map (BitVec.setWidth 64) =
      (if readsData b addr then [(busLoad ramSize b addr size).1] else []) ++
        (busLoad ramSize b addr size).2.uart.queued.map (BitVec.setWidth 64) := by
  by_cases h : readsData b addr = true
  · have hcond := h
    simp only [readsData, Bool.and_eq_true, decide_eq_true_eq, Bool.not_eq_true', bne_iff_ne] at hcond
    obtain ⟨⟨rfl, hdlab⟩, hne⟩ := hcond
    rw [if_pos h, busLoad_uart0, queued_cons hne]
    simp [uartLoad, hdlab, hne, Uart.queued]
  · have hsame : (busLoad ramSize b addr size).2.uart.queued = b.uart.queued := by
      rcases busLoad_uart ramSize b addr size with hu | hu <;> rw [hu]
      refine uartLoad_queued ?_
      by_contra hc
      obtain ⟨h0, hdlab, hne⟩ : addr - uart0Base = 0 ∧ b.uart.dlab = false ∧ b.uart.rx_head ≠ b.uart.rx_tail := by
        simpa using hc
      have haddr : addr = uart0Base := by bv_omega
      exact h (by simp [readsData, haddr, hdlab, hne])
    rw [if_neg h, hsame]
    rfl

section Runs

variable [NetDevice]

theorem busStore_queued (ramSize : U64) (b : Bus) (addr : U64) (size : Nat) (val : U64) :
    (busStore ramSize b addr size val).uart.queued = b.uart.queued := by
  have hstore : (uartStore b.uart (addr - uart0Base) val).1.queued = b.uart.queued := by
    have hbuf : (uartStore b.uart (addr - uart0Base) val).1.rx_buf = b.uart.rx_buf := by
      unfold uartStore
      split_ifs <;> rfl
    obtain ⟨-, hhead, htail⟩ := uartStore_rx b.uart (addr - uart0Base) val
    exact queued_congr hbuf hhead htail
  unfold busStore
  split
  · rfl
  unfold mmioStore
  split
  · dsimp only
    split <;> exact hstore
  split
  · rfl
  split
  · rfl
  split
  · rfl
  split <;> rfl

def UartEvent.run (ramSize : U64) (s : RxRun) : UartEvent → RxRun
  | .rx ch => { s with bus := uartRx s.bus ch, accepted := s.accepted ++ if accepts s.bus ch then [ch] else [] }
  | .load addr size =>
    let r := busLoad ramSize s.bus addr size
    { s with bus := r.2, returned := s.returned ++ if readsData s.bus addr then [r.1] else [] }
  | .store addr size val => { s with bus := busStore ramSize s.bus addr size val }

/-! ## Runs -/

theorem rxFifo_step (ramSize : U64) {s : RxRun} (h : RxFifo s) (e : UartEvent) : RxFifo (e.run ramSize s) := by
  have hwf : RxWf s.bus := (rxWf_iff s.bus).2 h.ready
  cases e with
  | rx ch =>
    refine ⟨(rxWf_iff _).1 (uartRx_rx hwf ch), ?_⟩
    show (s.accepted ++ if accepts s.bus ch then [ch] else []).map (BitVec.setWidth 64) =
      s.returned ++ (uartRx s.bus ch).uart.queued.map (BitVec.setWidth 64)
    rw [uartRx_queued_eq, List.map_append, List.map_append, h.order, List.append_assoc]
  | load addr size =>
    refine ⟨(rxWf_iff _).1 (busLoad_rx ramSize hwf addr size), ?_⟩
    show s.accepted.map (BitVec.setWidth 64) =
      (s.returned ++ if readsData s.bus addr then [(busLoad ramSize s.bus addr size).1] else []) ++
        (busLoad ramSize s.bus addr size).2.uart.queued.map (BitVec.setWidth 64)
    rw [h.order, busLoad_queued ramSize s.bus addr size, List.append_assoc]
  | store addr size val =>
    refine ⟨(rxWf_iff _).1 (busStore_rx ramSize hwf addr size val), ?_⟩
    show s.accepted.map (BitVec.setWidth 64) =
      s.returned ++ (busStore ramSize s.bus addr size val).uart.queued.map (BitVec.setWidth 64)
    rw [busStore_queued]
    exact h.order

theorem rxFifo_run (ramSize : U64) {s : RxRun} (h : RxFifo s) (evs : List UartEvent) :
    RxFifo (evs.foldl (UartEvent.run ramSize) s) := by
  induction evs generalizing s with
  | nil => exact h
  | cons e evs ih => exact ih (rxFifo_step ramSize h e)

/-- **The receive side is a FIFO of 255 characters**, from the reset of the UART on. -/
theorem uartFifo (ramSize : U64) (b : Bus) (evs : List UartEvent) :
    let s := evs.foldl (UartEvent.run ramSize) ⟨{ b with uart := .zero }, [], []⟩
    RxFifo s ∧ ∀ ch, accepts s.bus ch = true ↔ s.bus.uart.queued.length < 255 := by
  have hempty : Uart.zero.queued = [] := (queued_eq_nil .zero).2 rfl
  have hwf : RxWf { b with uart := .zero } := rfl
  refine ⟨rxFifo_run ramSize ⟨(rxWf_iff _).1 hwf, ?_⟩ evs, fun ch => accepts_iff _ ch⟩
  show List.map _ [] = [] ++ Uart.zero.queued.map _
  rw [hempty]
  rfl

end Runs

end PgLinux
