import PgLinux.Worker
import PgLinux.Lib.Runs
/-!
# Interrupts — which interrupt lines the PLIC has seen

A device raises its pending bit in `bus_store` and `rv64_uart_rx`; a claim clears it.  The events are the guest's bus
accesses, characters from the console and polls of the network.  `inFlight` is a ghost: the sources that a context has
claimed and not completed.
-/
namespace PgLinux

/-! ## Lines -/

inductive Source where
  | uart | blk | net
deriving DecidableEq

def Bus.irq (b : Bus) : Source → U32
  | .uart => uart0Irq
  | .blk => b.virtio_blk.irq
  | .net => b.virtio_net.irq

/-- The interrupt condition of a device. -/
def Bus.line (b : Bus) : Source → Bool
  | .uart => b.uart.rx_ready && b.uart.ier.getLsbD 0
  | .blk => b.virtio_blk.int_status != 0
  | .net => b.virtio_net.int_status != 0

def Plic.isPending (p : Plic) (irq : U32) : Bool := (p.pending (irq / 32)).getLsbD (irq % 32).toNat

/-! ## Pending bits -/

theorem bit_getLsbD (n : U32) {j : Nat} (hj : j < 32) : ((1 : U32) <<< n).getLsbD j = decide (j = n.toNat) := by
  have hone : ∀ i, (1 : U32).getLsbD i = decide (i = 0) := fun i => by
    show (1#32).getLsbD i = _
    rw [BitVec.getLsbD_one]
    simp
  rw [BitVec.shiftLeft_eq', BitVec.getLsbD_shiftLeft, hone]
  by_cases hjn : j < n.toNat
  · have hne : j ≠ n.toNat := by omega
    simp [hjn, hne]
  · have hiff : j - n.toNat = 0 ↔ j = n.toNat := by omega
    simp [hj, hjn, hiff]

theorem slot_lt (irq : U32) : (irq % 32).toNat < 32 := by
  rw [BitVec.toNat_umod]
  exact Nat.mod_lt _ (by decide)

theorem isPending_raise_self (p : Plic) (irq : U32) : (p.raise irq).isPending irq = true := by
  unfold Plic.isPending Plic.raise setAt
  dsimp only
  rw [if_pos rfl, BitVec.getLsbD_or, bit_getLsbD _ (slot_lt irq)]
  simp

theorem isPending_raise {p : Plic} {i : U32} (h : p.isPending i = true) (irq : U32) : (p.raise irq).isPending i = true := by
  unfold Plic.isPending Plic.raise setAt at *
  dsimp only
  split
  next heq => rw [← heq, BitVec.getLsbD_or, h, Bool.true_or]
  next => exact h

theorem eq_of_slot {i j : U32} (hd : i / 32 = j / 32) (hm : (i % 32).toNat = (j % 32).toNat) : i = j := by
  apply BitVec.eq_of_toNat_eq
  have hdn := congrArg BitVec.toNat hd
  rw [BitVec.toNat_udiv, BitVec.toNat_udiv] at hdn
  rw [BitVec.toNat_umod, BitVec.toNat_umod] at hm
  have h32 : (32 : U32).toNat = 32 := rfl
  rw [h32] at hdn hm
  omega

/-- A claim takes down one bit, and answers its source. -/
theorem plicClaim_spec (p : Plic) (ctx : Bool) : ∀ (n : Nat) (i : U32), 0 < i.toNat → i.toNat + n ≤ 64 → ∀ j,
    p.isPending j = true → (plicClaim p ctx n i).2.isPending j = true ∨
      (plicClaim p ctx n i).1 ≠ 0 ∧ (plicClaim p ctx n i).1.setWidth 32 = j
  | 0, _, _, _, _, hj => .inl hj
  | n + 1, i, hi, hn, j, hj => by
    unfold plicClaim
    dsimp only
    split
    · by_cases hij : i = j
      · refine .inr ⟨?_, ?_⟩
        · intro h0
          have hnat := congrArg BitVec.toNat h0
          rw [BitVec.toNat_setWidth] at hnat
          have hzero : (0 : U64).toNat = 0 := rfl
          omega
        · rw [← hij]
          apply BitVec.eq_of_toNat_eq
          rw [BitVec.toNat_setWidth, BitVec.toNat_setWidth]
          omega
      · refine .inl ?_
        unfold Plic.isPending setAt at *
        dsimp only
        split
        next heq =>
          have hslot : (j % 32).toNat ≠ (i % 32).toNat := fun hm => hij (eq_of_slot heq hm).symm
          rw [← heq, BitVec.getLsbD_and, hj, BitVec.getLsbD_not, bit_getLsbD _ (slot_lt j)]
          rw [decide_eq_false hslot, decide_eq_true (slot_lt j)]
          rfl
        next => exact hj
    · have hone : (i + 1).toNat = i.toNat + 1 := by
        rw [BitVec.toNat_add]
        have : (1 : U32).toNat = 1 := rfl
        omega
      exact plicClaim_spec p ctx n (i + 1) (by omega) (by omega) j hj

/-! ## Events -/

structure Lines where
  bus : Bus
  inFlight : Bool → U32 → Bool

/-- The claim/complete register of a context. -/
def claimAddr (ctx : Bool) : U64 := plicBase + if ctx then 0x201004 else 0x200004

def claimCtx (addr : U64) : Option Bool :=
  if addr = claimAddr false then some false else if addr = claimAddr true then some true else none

def Lines.setFlight (s : Lines) (ctx : Bool) (irq : U32) (v : Bool) : Bool → U32 → Bool :=
  setAt s.inFlight ctx (setAt (s.inFlight ctx) irq v)

inductive LineEvent where
  | load (addr : U64) (size : Nat)
  | store (addr : U64) (size : Nat) (val : U64)
  | rx (ch : U8)
  | poll

/-- A line that is up is pending or in flight. -/
def NotLost (s : Lines) : Prop :=
  ∀ d, s.bus.line d = true → (∀ ctx, s.inFlight ctx (s.bus.irq d) = false) → s.bus.plic.isPending (s.bus.irq d) = true

/-! ## What an access does to the lines -/

def RxWf (b : Bus) : Prop := b.uart.rx_ready = (b.uart.rx_head != b.uart.rx_tail)

theorem claimCtx_claimAddr (ctx : Bool) : claimCtx (claimAddr ctx) = some ctx := by cases ctx <;> decide

theorem claimCtx_some {addr : U64} {ctx : Bool} (h : claimCtx addr = some ctx) : addr = claimAddr ctx := by
  unfold claimCtx at h
  split at h
  next h1 =>
    obtain rfl := Option.some.inj h
    exact h1
  · split at h
    next h1 =>
      obtain rfl := Option.some.inj h
      exact h1
    · cases h

theorem claimAddr_notRam (ramSize : U64) (ctx : Bool) : inRam ramSize (claimAddr ctx) = false := by
  have hlt : decide (ramBase ≤ claimAddr ctx) = false := by cases ctx <;> decide
  unfold inRam inRange
  rw [hlt, Bool.false_and]

theorem busLoad_claim (ramSize : U64) (b : Bus) (ctx : Bool) (size : Nat) :
    busLoad ramSize b (claimAddr ctx) size =
      ((plicClaim b.plic ctx 63 1).1, { b with plic := (plicClaim b.plic ctx 63 1).2 }) := by
  unfold busLoad
  rw [if_neg (by rw [claimAddr_notRam]; decide)]
  cases ctx <;> rfl

/-- A read of the UART never turns its receive condition on. -/
theorem uartLoad_rx {u : Uart} (h : u.rx_ready = (u.rx_head != u.rx_tail)) (off : U64) :
    (uartLoad u off).2.rx_ready = ((uartLoad u off).2.rx_head != (uartLoad u off).2.rx_tail) ∧
      ((uartLoad u off).2.rx_ready = true → u.rx_ready = true) ∧ (uartLoad u off).2.ier = u.ier := by
  unfold uartLoad
  split
  · split
    · exact ⟨h, id, rfl⟩
    · dsimp only
      split
      next hne =>
        refine ⟨rfl, fun _ => ?_, rfl⟩
        rw [h]
        simpa using hne
      next heq =>
        refine ⟨rfl, fun hr => ?_, rfl⟩
        rw [h]
        exact hr
  · split
    · exact ⟨h, id, rfl⟩
    · split
      · split
        · exact ⟨h, id, rfl⟩
        · split <;> exact ⟨h, id, rfl⟩
      · split_ifs <;> exact ⟨h, id, rfl⟩

theorem plicLoad_other (p : Plic) {offset : U64} (h0 : offset ≠ 0x200004) (h1 : offset ≠ 0x201004) :
    (plicLoad p offset).2 = p := by
  unfold plicLoad
  dsimp only
  split_ifs
  all_goals first | rfl | skip
  next hctx h4 =>
    refine absurd ?_ h1
    rw [← BitVec.sub_add_cancel offset 0x201000, h4]
    rfl
  next hctx h4 =>
    refine absurd ?_ h0
    rw [← BitVec.sub_add_cancel offset 0x200000, h4]
    rfl

theorem claimCtx_none {addr : U64} (h : claimCtx addr = none) (ctx : Bool) : addr ≠ claimAddr ctx := by
  rintro rfl
  rw [claimCtx_claimAddr] at h
  cases h

theorem claimCtx_offset {addr : U64} (h : claimCtx addr = none) :
    addr - plicBase ≠ 0x200004 ∧ addr - plicBase ≠ 0x201004 := by
  constructor
  · intro hoff
    refine claimCtx_none h false ?_
    rw [← BitVec.sub_add_cancel addr plicBase, hoff]
    rfl
  · intro hoff
    refine claimCtx_none h true ?_
    rw [← BitVec.sub_add_cancel addr plicBase, hoff]
    rfl

/-- Any other load at most reads the UART. -/
theorem busLoad_other {addr : U64} (h : claimCtx addr = none) (ramSize : U64) (b : Bus) (size : Nat) :
    (busLoad ramSize b addr size).2 = b ∨ ∃ off, (busLoad ramSize b addr size).2 = { b with uart := (uartLoad b.uart off).2 } := by
  have hplic := plicLoad_other b.plic (claimCtx_offset h).1 (claimCtx_offset h).2
  unfold busLoad
  split
  · exact .inl rfl
  unfold mmioLoad
  split
  · exact .inr ⟨_, rfl⟩
  split
  · exact .inl rfl
  split
  · dsimp only
    rw [hplic]
    exact .inl rfl
  split
  · exact .inl rfl
  split <;> exact .inl rfl

theorem setFlight_apply (s : Lines) (ctx : Bool) (irq : U32) (v : Bool) (c : Bool) (i : U32) :
    s.setFlight ctx irq v c i = if c = ctx ∧ i = irq then v else s.inFlight c i := by
  unfold Lines.setFlight setAt
  by_cases hc : c = ctx <;> by_cases hi : i = irq <;> simp [hc, hi]

/-- A line that is up was up before or is pending, and no pending bit goes down. -/
structure LinesKept (b b' : Bus) : Prop where
  line : ∀ d, b'.line d = true → b'.plic.isPending (b'.irq d) = true ∨ (b.line d = true ∧ b'.irq d = b.irq d)
  pending : ∀ i, b.plic.isPending i = true → b'.plic.isPending i = true

theorem LinesKept.refl (b : Bus) : LinesKept b b := ⟨fun _ h => .inr ⟨h, rfl⟩, fun _ => id⟩

theorem plicStore_pending (p : Plic) (offset val : U64) : (plicStore p offset val).pending = p.pending := by
  unfold plicStore
  split
  · dsimp only
    split_ifs <;> rfl
  split
  · dsimp only
    split_ifs <;> rfl
  split
  · dsimp only
    split_ifs <;> rfl
  · rfl

theorem isPending_raise_if {p : Plic} {i : U32} (h : p.isPending i = true) (c : Prop) [Decidable c] (irq : U32) :
    (if c then p.raise irq else p).isPending i = true := by
  split
  · exact isPending_raise h irq
  · exact h

theorem uartStore_rx (u : Uart) (offset val : U64) : (uartStore u offset val).1.rx_ready = u.rx_ready ∧
    (uartStore u offset val).1.rx_head = u.rx_head ∧ (uartStore u offset val).1.rx_tail = u.rx_tail := by
  unfold uartStore
  split_ifs <;> exact ⟨rfl, rfl, rfl⟩

theorem uartRx_kept (b : Bus) (ch : U8) : LinesKept b (uartRx b ch) where
  line d hd := by
    cases d with
    | uart => exact .inl (isPending_raise_self b.plic uart0Irq)
    | blk => exact .inr ⟨hd, rfl⟩
    | net => exact .inr ⟨hd, rfl⟩
  pending i hi := isPending_raise hi uart0Irq

theorem NotLost.of_kept {s s' : Lines} (h : NotLost s)
    (hline : ∀ d, s'.bus.line d = true → s'.bus.plic.isPending (s'.bus.irq d) = true ∨
      (s.bus.line d = true ∧ s'.bus.irq d = s.bus.irq d))
    (hpending : ∀ i, s.bus.plic.isPending i = true → s'.bus.plic.isPending i = true ∨ ∃ ctx, s'.inFlight ctx i = true)
    (hflight : ∀ ctx i, s.inFlight ctx i = true → s'.inFlight ctx i = true) : NotLost s' := by
  intro d hd hfree
  rcases hline d hd with hp | ⟨hs, hirq⟩
  · exact hp
  · rw [hirq] at hfree ⊢
    have hfree' : ∀ ctx, s.inFlight ctx (s.bus.irq d) = false := by
      intro ctx
      by_contra hne
      have := hflight ctx _ (Bool.of_not_eq_false hne)
      rw [hfree ctx] at this
      cases this
    rcases hpending _ (h d hs hfree') with hp | ⟨ctx, hp⟩
    · exact hp
    · rw [hfree ctx] at hp
      cases hp

/-- A completion, which the PLIC records only in `claim`. -/
def Bus.complete (b : Bus) (ctx : Bool) : Bus := { b with plic := { b.plic with claim := setAt b.plic.claim ctx 0 } }

@[simp] theorem complete_line (b : Bus) (ctx : Bool) (d : Source) : (b.complete ctx).line d = b.line d := by cases d <;> rfl

@[simp] theorem complete_irq (b : Bus) (ctx : Bool) (d : Source) : (b.complete ctx).irq d = b.irq d := by cases d <;> rfl

@[simp] theorem complete_isPending (b : Bus) (ctx : Bool) (i : U32) :
    (b.complete ctx).plic.isPending i = b.plic.isPending i := rfl

theorem bool_cases (ctx c : Bool) : c = ctx ∨ c = !ctx := by cases c <;> cases ctx <;> decide

theorem busLoad_rx (ramSize : U64) {b : Bus} (h : RxWf b) (addr : U64) (size : Nat) :
    RxWf (busLoad ramSize b addr size).2 := by
  cases hctx : claimCtx addr with
  | none =>
    rcases busLoad_other hctx ramSize b size with hsame | ⟨off, huart⟩
    · rw [hsame]
      exact h
    · rw [huart]
      exact (uartLoad_rx h off).1
  | some ctx =>
    obtain rfl := claimCtx_some hctx
    rw [busLoad_claim]
    exact h

theorem uartRx_rx {b : Bus} (h : RxWf b) (ch : U8) : RxWf (uartRx b ch) := by
  unfold RxWf uartRx
  dsimp only
  split
  next hroom =>
    show true = (b.uart.rx_head + 1 != b.uart.rx_tail)
    simpa using hroom
  next => exact h

section Stores

variable [NetDevice]

/-- **Every store raises what it turns on.** -/
theorem busStore_kept (ramSize : U64) (b : Bus) (addr : U64) (size : Nat) (val : U64) :
    LinesKept b (busStore ramSize b addr size val) := by
  unfold busStore
  split
  · exact ⟨fun d hd => .inr ⟨by cases d <;> exact hd, by cases d <;> rfl⟩, fun _ => id⟩
  unfold mmioStore
  split
  · dsimp only
    split
    next hraise =>
      refine ⟨fun d hd => ?_, fun i hi => isPending_raise hi uart0Irq⟩
      cases d with
      | uart => exact .inl (isPending_raise_self b.plic uart0Irq)
      | blk => exact .inr ⟨hd, rfl⟩
      | net => exact .inr ⟨hd, rfl⟩
    next hquiet =>
      refine ⟨fun d hd => ?_, fun _ => id⟩
      cases d with
      | uart =>
        refine absurd ?_ hquiet
        have hline : ((uartStore b.uart (addr - uart0Base) val).1.rx_ready &&
          (uartStore b.uart (addr - uart0Base) val).1.ier.getLsbD 0) = true := hd
        rw [hline, Bool.or_true]
      | blk => exact .inr ⟨hd, rfl⟩
      | net => exact .inr ⟨hd, rfl⟩
  split
  · exact ⟨fun d hd => .inr ⟨by cases d <;> exact hd, by cases d <;> rfl⟩, fun _ => id⟩
  split
  · refine ⟨fun d hd => .inr ⟨by cases d <;> exact hd, by cases d <;> rfl⟩, fun i hi => ?_⟩
    unfold Plic.isPending at *
    dsimp only
    rw [plicStore_pending]
    exact hi
  split
  · dsimp only
    generalize virtioMmioStore b.virtio_blk ramSize (addr - virtioMmioBase) val b.mem = r
    refine ⟨fun d hd => ?_, fun i hi => isPending_raise_if hi _ _⟩
    cases d with
    | uart => exact .inr ⟨hd, rfl⟩
    | blk =>
      have hst : r.2.int_status ≠ 0 := by simpa [Bus.line] using hd
      refine .inl ?_
      dsimp only
      rw [if_pos hst]
      exact isPending_raise_self b.plic r.2.irq
    | net => exact .inr ⟨hd, rfl⟩
  split
  · dsimp only
    generalize virtioMmioStore b.virtio_net ramSize (addr - (virtioMmioBase + virtioMmioSize)) val b.mem = r
    refine ⟨fun d hd => ?_, fun i hi => isPending_raise_if hi _ _⟩
    cases d with
    | uart => exact .inr ⟨hd, rfl⟩
    | blk => exact .inr ⟨hd, rfl⟩
    | net =>
      have hst : r.2.int_status ≠ 0 := by simpa [Bus.line] using hd
      refine .inl ?_
      dsimp only
      rw [if_pos hst]
      exact isPending_raise_self b.plic r.2.irq
  · exact .refl b

theorem busStore_rx (ramSize : U64) {b : Bus} (h : RxWf b) (addr : U64) (size : Nat) (val : U64) :
    RxWf (busStore ramSize b addr size val) := by
  unfold busStore
  split
  · exact h
  unfold mmioStore
  split
  · have huart : (uartStore b.uart (addr - uart0Base) val).1.rx_ready =
        ((uartStore b.uart (addr - uart0Base) val).1.rx_head != (uartStore b.uart (addr - uart0Base) val).1.rx_tail) := by
      obtain ⟨hr, hh, ht⟩ := uartStore_rx b.uart (addr - uart0Base) val
      rw [hr, hh, ht]
      exact h
    dsimp only
    split <;> exact huart
  split
  · exact h
  split
  · exact h
  split
  · exact h
  split <;> exact h

end Stores

/-! ## Steps -/

section Steps

variable [NetDevice]

/-- `virtio_net_poll` on the machine's network device. -/
def Bus.poll (b : Bus) : Bus :=
  let r := netPoll b.virtio_net b.mem
  { b with virtio_net := r.2, mem := r.1 }

def Lines.step (ramSize : U64) (s : Lines) : LineEvent → Lines
  | .load addr size =>
    let r := busLoad ramSize s.bus addr size
    { bus := r.2
      inFlight := match claimCtx addr with
        | some ctx => if r.1 = 0 then s.inFlight else s.setFlight ctx (r.1.setWidth 32) true
        | none => s.inFlight }
  | .store addr size val =>
    { bus := busStore ramSize s.bus addr size val
      inFlight := match claimCtx addr with
        | some ctx => s.setFlight ctx (val.setWidth 32) false
        | none => s.inFlight }
  | .rx ch => { s with bus := uartRx s.bus ch }
  | .poll => { s with bus := s.bus.poll }

/-- A completion of a source whose line is still up and not pending again, or a poll that signals unheard. -/
def Loses (s : Lines) : LineEvent → Prop
  | .load .. => False
  | .store addr _ val => ∃ ctx d, claimCtx addr = some ctx ∧ s.bus.irq d = val.setWidth 32 ∧ s.bus.line d = true ∧
      s.bus.plic.isPending (s.bus.irq d) = false ∧ s.inFlight (!ctx) (s.bus.irq d) = false
  | .rx _ => False
  | .poll => s.bus.poll.line .net = true ∧ s.bus.plic.isPending (s.bus.poll.irq .net) = false ∧
      ∀ ctx, s.inFlight ctx (s.bus.poll.irq .net) = false

/-! ## One step -/

theorem load_notLost (ramSize : U64) {s : Lines} (hrx : RxWf s.bus) (h : NotLost s) (addr : U64) (size : Nat) :
    NotLost (s.step ramSize (.load addr size)) := by
  cases hctx : claimCtx addr with
  | none =>
    have hflight : (s.step ramSize (.load addr size)).inFlight = s.inFlight := by
      unfold Lines.step
      dsimp only
      rw [hctx]
    have hbus : (s.step ramSize (.load addr size)).bus = (busLoad ramSize s.bus addr size).2 := rfl
    rcases busLoad_other hctx ramSize s.bus size with hsame | ⟨off, huart⟩
    · refine h.of_kept (fun d hd => ?_) (fun i hi => .inl ?_) fun ctx i hi => by rw [hflight]; exact hi
      · rw [hbus, hsame] at hd ⊢
        exact .inr ⟨hd, rfl⟩
      · rw [hbus, hsame]
        exact hi
    · refine h.of_kept (fun d hd => ?_) (fun i hi => .inl ?_) fun ctx i hi => by rw [hflight]; exact hi
      · rw [hbus, huart] at hd ⊢
        obtain ⟨-, hready, hier⟩ := uartLoad_rx hrx off
        cases d with
        | uart =>
          obtain ⟨hr, hi⟩ := Bool.and_eq_true_iff.1 hd
          rw [hier] at hi
          exact .inr ⟨Bool.and_eq_true_iff.2 ⟨hready hr, hi⟩, rfl⟩
        | blk => exact .inr ⟨hd, rfl⟩
        | net => exact .inr ⟨hd, rfl⟩
      · rw [hbus, huart]
        exact hi
  | some ctx =>
    obtain rfl := claimCtx_some hctx
    have hstep : s.step ramSize (.load (claimAddr ctx) size) =
        { bus := { s.bus with plic := (plicClaim s.bus.plic ctx 63 1).2 }
          inFlight := if (plicClaim s.bus.plic ctx 63 1).1 = 0 then s.inFlight
            else s.setFlight ctx ((plicClaim s.bus.plic ctx 63 1).1.setWidth 32) true } := by
      unfold Lines.step
      dsimp only
      rw [hctx, busLoad_claim]
    rw [hstep]
    refine h.of_kept (fun d hd => .inr ⟨by cases d <;> exact hd, by cases d <;> rfl⟩) (fun i hi => ?_) fun c i hi => ?_
    · rcases plicClaim_spec s.bus.plic ctx 63 1 (by decide) (by decide) i hi with hp | ⟨hne, hval⟩
      · exact .inl hp
      · refine .inr ⟨ctx, ?_⟩
        dsimp only
        rw [if_neg hne, setFlight_apply, if_pos ⟨rfl, hval.symm⟩]
    · dsimp only
      split
      · exact hi
      · rw [setFlight_apply]
        split
        · rfl
        · exact hi

theorem busStore_claim (ramSize : U64) (b : Bus) (ctx : Bool) (size : Nat) (val : U64) :
    busStore ramSize b (claimAddr ctx) size val = b.complete ctx := by
  unfold busStore
  rw [if_neg (by rw [claimAddr_notRam]; decide)]
  cases ctx <;> rfl

theorem store_notLost (ramSize : U64) {s : Lines} (h : NotLost s) (addr : U64) (size : Nat) (val : U64) :
    NotLost (s.step ramSize (.store addr size val)) ↔ ¬ Loses s (.store addr size val) := by
  cases hctx : claimCtx addr with
  | none =>
    have hflight : (s.step ramSize (.store addr size val)).inFlight = s.inFlight := by
      unfold Lines.step
      dsimp only
      rw [hctx]
    have hkept := busStore_kept ramSize s.bus addr size val
    refine iff_of_true (h.of_kept hkept.line (fun i hi => .inl (hkept.pending i hi)) fun c i hi => ?_) ?_
    · rw [hflight]
      exact hi
    · rintro ⟨c, d, hc, -⟩
      rw [hctx] at hc
      cases hc
  | some ctx =>
    obtain rfl := claimCtx_some hctx
    have hstep : s.step ramSize (.store (claimAddr ctx) size val) =
        { bus := s.bus.complete ctx, inFlight := s.setFlight ctx (val.setWidth 32) false } := by
      unfold Lines.step
      dsimp only
      rw [hctx, busStore_claim]
    rw [hstep]
    constructor
    · rintro hn ⟨c, d, hc, hirq, hd, hp, hother⟩
      obtain rfl : ctx = c := Option.some.inj (hctx.symm.trans hc)
      have hpend := hn d ((complete_line ..).trans hd) fun c => by
        rw [complete_irq]
        dsimp only
        rw [setFlight_apply]
        split
        · rfl
        next hne =>
          rcases bool_cases ctx c with rfl | rfl
          · exact absurd ⟨rfl, hirq⟩ hne
          · exact hother
      rw [complete_irq, complete_isPending, hp] at hpend
      cases hpend
    · intro hn d hd hfree
      rw [complete_line] at hd
      simp only [complete_irq, complete_isPending] at hfree ⊢
      by_contra hp
      rw [Bool.not_eq_true] at hp
      have hother : s.inFlight (!ctx) (s.bus.irq d) = false := by
        have hc := hfree (!ctx)
        rw [setFlight_apply, if_neg (by simp)] at hc
        exact hc
      by_cases hirq : s.bus.irq d = val.setWidth 32
      · exact hn ⟨ctx, d, hctx, hirq, hd, hp, hother⟩
      · have hctxFree := hfree ctx
        rw [setFlight_apply, if_neg fun hc => hirq hc.2] at hctxFree
        have hpend := h d hd fun c => by
          rcases bool_cases ctx c with rfl | rfl
          · exact hctxFree
          · exact hother
        rw [hp] at hpend
        cases hpend

theorem poll_notLost (ramSize : U64) {s : Lines} (h : NotLost s) :
    NotLost (s.step ramSize .poll) ↔ ¬ Loses s .poll := by
  constructor
  · rintro hn ⟨hline, hp, hfree⟩
    have hpend := hn .net hline hfree
    rw [show (s.step ramSize .poll).bus.plic = s.bus.plic from rfl] at hpend
    exact Bool.false_ne_true (hp.symm.trans hpend)
  · intro hn d hd hfree
    cases d with
    | uart => exact h .uart hd hfree
    | blk => exact h .blk hd hfree
    | net =>
      by_contra hp
      rw [Bool.not_eq_true] at hp
      exact hn ⟨hd, hp, hfree⟩

/-- **A step loses no line exactly when it is neither a completion of a line still up nor an unheard poll.** -/
theorem step_notLost (ramSize : U64) {s : Lines} (e : LineEvent) (hrx : RxWf s.bus) (h : NotLost s) :
    NotLost (s.step ramSize e) ↔ ¬ Loses s e := by
  cases e with
  | load addr size => exact iff_of_true (load_notLost ramSize hrx h addr size) id
  | store addr size val => exact store_notLost ramSize h addr size val
  | rx ch =>
    have hkept := uartRx_kept s.bus ch
    exact iff_of_true (h.of_kept hkept.line (fun i hi => .inl (hkept.pending i hi)) fun _ _ => id) id
  | poll => exact poll_notLost ramSize h

theorem step_rxWf (ramSize : U64) (s : Lines) (e : LineEvent) (h : RxWf s.bus) : RxWf (s.step ramSize e).bus := by
  cases e with
  | load addr size => exact busLoad_rx ramSize h addr size
  | store addr size val => exact busStore_rx ramSize h addr size val
  | rx ch => exact uartRx_rx h ch
  | poll => exact h

/-! ## Runs -/

/-- The lines of a machine at boot. -/
def Lines.boot (disk : Bool) (diskSize vmId : U64) (mem : BlkMem) : Lines :=
  ⟨((bootDevices disk diskSize vmId coldCpu).attach mem).bus, fun _ _ => false⟩

/-- **In a run from boot, no line is lost in any state exactly when no event loses one.** -/
theorem notLost_iff (disk : Bool) (diskSize vmId : U64) (mem : BlkMem) (evs : List LineEvent) :
    Runs.Along (Lines.step vmRamSize) NotLost (.boot disk diskSize vmId mem) evs ↔
      Runs.Avoids (Lines.step vmRamSize) Loses (.boot disk diskSize vmId mem) evs := by
  have hboot : NotLost (.boot disk diskSize vmId mem) := by
    intro d hd _
    have hquiet : (Lines.boot disk diskSize vmId mem).bus.line d = false := by
      cases d with
      | uart => rfl
      | blk => cases disk <;> rfl
      | net => rfl
    rw [hquiet] at hd
    cases hd
  exact Runs.along_iff_avoids (step_rxWf vmRamSize) (fun s e => step_notLost vmRamSize e)
    (show RxWf (Lines.boot disk diskSize vmId mem).bus from rfl) hboot evs

end Steps

/-! ## A stale completion -/

section Stale

local instance staleNet : NetDevice := NetDevice.silent

/-- Receive interrupts on, two characters, and a handler that reads one of them between its claim and its completion. -/
def staleEvents : List LineEvent :=
  [.store 0x10000001 1 1, .store 0x0C002080 4 0x400, .rx 0x61, .rx 0x62, .load 0x0C201004 4, .load 0x10000000 1,
    .store 0x0C201004 4 10]

/-- The second character waits without an interrupt. -/
theorem not_notLost_stale : ¬ Runs.Along (Lines.step vmRamSize) NotLost (.boot false 0 1 .null) staleEvents := by
  intro h
  have hpend := h staleEvents List.prefix_rfl .uart (by decide +kernel) fun ctx => by cases ctx <;> decide +kernel
  revert hpend
  decide +kernel

end Stale

end PgLinux
