import PgLinux.Dma
import PgLinux.Lib.Ring
import PgLinux.Lib.Runs
import PgLinux.VirtioNet
import PgLinux.Virtqueue
/-!
# ReceiveRing — the packets between `slirp_send_packet` and `virtio_net_poll`

The events are packets that arrive, passes of the receive loop and whatever else happens to the device and to memory in
between, so that a poll is a run of arrivals and passes.  (A reset, which clears the ring, is none of them.)  `accepted`
and `taken` are ghosts: the packets the ring has taken in, and what became of those taken out.
-/
namespace PgLinux

/-! ## Runs -/

def packetBytes (buf : Mem) (len : U64) : Frame := (List.range len.toNat).map fun i => buf (BitVec.ofNat 64 i)

/-- A packet as the callback stores it. -/
def Packet.stored (pkt : Packet) : Frame := packetBytes pkt.buf (if 2048 < pkt.len then 2048 else pkt.len)

/-- What became of a packet: its first bytes are in the buffer offered, the buffer was smaller than the header, or no
buffer took it. -/
inductive Fate where
  | delivered (bytes : Frame)
  | tooSmall
  | lost

structure RxRing where
  dev : VirtioDev
  ram : Mem
  accepted : List Frame
  taken : List Fate

inductive RxEvent where
  | arrive (pkt : Packet)
  | pass (host : NetHost) (avail : U16)
  | other (dev : VirtioDev) (ram : Mem)

/-- The loop makes another pass. -/
def RxRing.Goes (s : RxRing) (avail : U16) : Prop :=
  s.dev.rx_head ≠ s.dev.rx_tail ∧ (s.dev.queues 0).last_avail ≠ avail

instance (s : RxRing) (avail : U16) : Decidable (s.Goes avail) := inferInstanceAs (Decidable (_ ∧ _))

def RxRing.rx (s : RxRing) : NetRx := ⟨s.dev, s.ram, false⟩

/-- `dev`, with the ring of `ring`. -/
def VirtioDev.withRing (dev ring : VirtioDev) : VirtioDev :=
  { dev with
    rx_ring_buffers := ring.rx_ring_buffers, rx_ring_sizes := ring.rx_ring_sizes, rx_head := ring.rx_head,
    rx_tail := ring.rx_tail }

section Pass

variable [NetHost]

/-- The guest offers a buffer: the available ring holds an entry, and the table a descriptor for it. -/
def Offered (s : NetRx) : Prop :=
  let vq := s.dev.queues 0
  let ringIdx : U16 := (vq.last_avail.setWidth 32 % vq.num).setWidth 16
  vq.num ≠ 0 ∧ DmaReaches s.dev.ram_size (vq.avail_addr + 4 + ringIdx.setWidth 64 * 2) 2 ∧
    DmaReaches s.dev.ram_size (vq.desc_addr + (availHead vq s.dev.ram_size s.ram).setWidth 64 * 16) 16

instance (s : NetRx) : Decidable (Offered s) := inferInstanceAs (Decidable (_ ∧ _ ∧ _))

/-- What is copied behind the header goes where the guest has RAM. -/
def PacketFits (s : NetRx) : Prop :=
  DmaReaches s.dev.ram_size ((rxDesc s).addr + 10) (toCopy (rxDesc s) (s.dev.rx_ring_sizes (s.dev.rx_tail.srem 256)))

instance (s : NetRx) : Decidable (PacketFits s) := inferInstanceAs (Decidable (DmaReaches _ _ _))

/-- What `netRxPass` does with the packet at the tail. -/
def rxFate (s : NetRx) : Fate :=
  let idx := s.dev.rx_tail.srem 256
  if ¬ Offered s then .lost
  else if 10 ≤ (rxDesc s).len then
    if PacketFits s then .delivered (packetBytes (s.dev.rx_ring_buffers idx) (toCopy (rxDesc s) (s.dev.rx_ring_sizes idx)))
    else .lost
  else .tooSmall

end Pass

def RxEvent.run (s : RxRing) : RxEvent → RxRing
  | .arrive pkt =>
    { s with
      dev := (slirpSendPacket s.dev pkt).1
      accepted := if s.dev.rxFull then s.accepted else s.accepted ++ [pkt.stored] }
  | .pass host avail =>
    if s.Goes avail then
      let t := @netRxPass host s.rx
      { dev := t.dev, ram := t.ram, accepted := s.accepted, taken := s.taken ++ [@rxFate host s.rx] }
    else s
  | .other dev ram => { s with dev := dev.withRing s.dev, ram := ram }

/-! ## The law -/

/-- Packet `i` is the `i`-th to be taken, and what is delivered of it are its first bytes. -/
structure InOrder (s : RxRing) : Prop where
  length_le : s.taken.length ≤ s.accepted.length
  delivered : ∀ (i : Nat) (bytes : Frame), s.taken[i]? = some (.delivered bytes) →
    ∃ pkt, s.accepted[i]? = some pkt ∧ bytes <+: pkt

/-- The index that the counter gives is one of the ring. -/
def InRing (counter : U32) : Prop := 0 ≤ (counter.srem 256).toInt ∧ (counter.srem 256).toInt < 256

/-- An index outside the ring, a packet dropped from a ring with room, or one taken that no buffer took. -/
def WrongRx (s : RxRing) : RxEvent → Prop
  | .arrive _ => if s.dev.rxFull then s.accepted.length ≠ s.taken.length + 256 else ¬ InRing s.dev.rx_head
  | .pass host avail => s.Goes avail ∧ (¬ InRing s.dev.rx_tail ∨ @rxFate host s.rx = .lost)
  | .other _ _ => False

/-- An `int` that has counted `n` packets is negative, and no multiple of the size. -/
def Wrapped (n : Nat) : Prop := 2 ^ 31 ≤ n % 2 ^ 32 ∧ ¬ 256 ∣ n

/-- No buffer is offered, or one that is large enough and not in RAM. -/
def NoBuffer [NetHost] (s : NetRx) : Prop := ¬ Offered s ∨ 10 ≤ (rxDesc s).len ∧ ¬ PacketFits s

/-- A packet stored or taken under a counter that has wrapped, or taken where the guest has no buffer for it. -/
def BadRx (s : RxRing) : RxEvent → Prop
  | .arrive _ => s.accepted.length < s.taken.length + 256 ∧ Wrapped s.accepted.length
  | .pass host avail => s.Goes avail ∧ (Wrapped s.taken.length ∨ @NoBuffer host s.rx)
  | .other _ _ => False

/-! ## Counters -/

/-- The counters count. -/
structure RingCounted (s : RxRing) : Prop where
  head : s.dev.rx_head = BitVec.ofNat 32 s.accepted.length
  tail : s.dev.rx_tail = BitVec.ofNat 32 s.taken.length
  le : s.taken.length ≤ s.accepted.length
  room : s.accepted.length ≤ s.taken.length + 256

theorem counter_toInt (n : Nat) : (BitVec.ofNat 32 n).toInt =
    if n % 2 ^ 32 < 2 ^ 31 then ((n % 2 ^ 32 : Nat) : Int) else (n % 2 ^ 32 : Nat) - 2 ^ 32 := by
  rw [BitVec.toInt_eq_toNat_cond, BitVec.toNat_ofNat]
  split <;> split <;> omega

theorem inRing_iff (n : Nat) : InRing (BitVec.ofNat 32 n) ↔ ¬ Wrapped n := by
  have hslot := @Ring.srem_slot_iff 32 (BitVec.ofNat 32 n) 256 (by decide)
  have h256 : (256 : U32).toInt = 256 := by decide
  rw [h256] at hslot
  unfold InRing Wrapped
  rw [hslot, counter_toInt]
  split <;> omega

/-- **The slot of a counter that has not wrapped.** -/
theorem slot_of_counter {n : Nat} (h : ¬ Wrapped n) : (BitVec.ofNat 32 n).srem 256 = BitVec.ofNat 32 (n % 256) := by
  have h256 : (256 : U32).toInt = 256 := by decide
  have hsmall : (BitVec.ofNat 32 (n % 256)).toInt = (n % 256 : Nat) := by
    rw [counter_toInt, if_pos (by omega)]
    omega
  apply BitVec.eq_of_toInt_eq
  rw [BitVec.toInt_srem, h256, hsmall, counter_toInt]
  unfold Wrapped at h
  split
  next hlt =>
    rw [Int.tmod_eq_emod_of_nonneg (by omega)]
    omega
  next hge =>
    -- a negative counter that names a slot is a multiple of the size
    rw [Int.tmod_eq_zero_of_dvd (by omega)]
    omega

theorem RingCounted.gap {s : RxRing} (h : RingCounted s) :
    (s.dev.rx_head - s.dev.rx_tail).toNat = s.accepted.length - s.taken.length := by
  have hroom := h.room
  rw [h.head, h.tail, Ring.gap_ofNat h.le (by omega)]

theorem RingCounted.full_iff {s : RxRing} (h : RingCounted s) :
    s.dev.rxFull = true ↔ s.accepted.length = s.taken.length + 256 := by
  have hgap := h.gap
  have hle := h.le
  have hroom := h.room
  have hint : (s.dev.rx_head - s.dev.rx_tail).toInt = (s.accepted.length - s.taken.length : Nat) := by
    rw [BitVec.toInt_eq_toNat_of_lt (by omega), hgap]
  unfold VirtioDev.rxFull
  rw [BitVec.sle_iff_toInt_le, hint, show (256 : U32).toInt = 256 by decide]
  omega

theorem RingCounted.goes {s : RxRing} (h : RingCounted s) {avail : U16} (hgo : s.Goes avail) :
    s.taken.length < s.accepted.length := by
  have hgap := h.gap
  have hne := hgo.1
  by_contra hge
  refine hne ?_
  bv_omega

/-- A packet that waits keeps the counters apart. -/
theorem RingCounted.apart {s : RxRing} (h : RingCounted s) (hlt : s.taken.length < s.accepted.length) :
    s.dev.rx_head ≠ s.dev.rx_tail := by
  intro heq
  have hgap := h.gap
  rw [heq, BitVec.sub_self] at hgap
  change 0 = s.accepted.length - s.taken.length at hgap
  omega

/-- A buffer that is too small is left where it is. -/
theorem netRxPass_small [NetHost] {s : NetRx} (h : ¬ 10 ≤ (rxDesc s).len) :
    netRxPass s = { s with dev := { s.dev with rx_tail := s.dev.rx_tail + 1 } } := if_neg h

/-- A pass takes the packet at the tail, and touches nothing else of the ring. -/
theorem netRxPass_dev [NetHost] (s : NetRx) :
    ∃ queues, (netRxPass s).dev = { s.dev with queues := queues, rx_tail := s.dev.rx_tail + 1 } := by
  unfold netRxPass
  dsimp only
  split <;> exact ⟨_, rfl⟩

/-- An arrival at a ring with room. -/
theorem run_arrive {s : RxRing} (h : ¬ s.dev.rxFull = true) (pkt : Packet) : (RxEvent.arrive pkt).run s =
    { s with dev := (slirpSendPacket s.dev pkt).1, accepted := s.accepted ++ [pkt.stored] } := by
  simp only [RxEvent.run, if_neg h]

theorem run_arrive_full {s : RxRing} (h : s.dev.rxFull = true) (pkt : Packet) : (RxEvent.arrive pkt).run s = s := by
  simp only [RxEvent.run, slirpSendPacket, if_pos h]

theorem run_pass {s : RxRing} {avail : U16} (h : s.Goes avail) (host : NetHost) : (RxEvent.pass host avail).run s =
    { dev := (@netRxPass host s.rx).dev, ram := (@netRxPass host s.rx).ram, accepted := s.accepted,
      taken := s.taken ++ [@rxFate host s.rx] } := if_pos h

theorem run_pass_stop {s : RxRing} {avail : U16} (h : ¬ s.Goes avail) (host : NetHost) :
    (RxEvent.pass host avail).run s = s := if_neg h

/-- **The counters count**, whatever happens. -/
theorem ringCounted_run {s : RxRing} (h : RingCounted s) (e : RxEvent) : RingCounted (e.run s) := by
  have hle := h.le
  have hroom := h.room
  cases e with
  | arrive pkt =>
    by_cases hf : s.dev.rxFull = true
    · rw [run_arrive_full hf]
      exact h
    · have hne := mt h.full_iff.2 hf
      have hlen : (s.accepted ++ [pkt.stored]).length = s.accepted.length + 1 := List.length_append
      have hhead : (slirpSendPacket s.dev pkt).1.rx_head = s.dev.rx_head + 1 := by rw [slirpSendPacket, if_neg hf]
      have htail : (slirpSendPacket s.dev pkt).1.rx_tail = s.dev.rx_tail := by rw [slirpSendPacket, if_neg hf]
      rw [run_arrive hf]
      exact {
        head := by rw [hhead, h.head, hlen, BitVec.ofNat_add]; rfl
        tail := htail.trans h.tail
        le := by rw [hlen]; exact Nat.le_succ_of_le hle
        room := by rw [hlen]; show _ ≤ s.taken.length + 256; omega }
  | pass host avail =>
    by_cases hgo : s.Goes avail
    · have hlt := h.goes hgo
      have hlen : (s.taken ++ [@rxFate host s.rx]).length = s.taken.length + 1 := List.length_append
      obtain ⟨queues, hdev⟩ := @netRxPass_dev host s.rx
      rw [run_pass hgo, hdev]
      exact {
        head := h.head
        tail := by rw [hlen, BitVec.ofNat_add, ← h.tail]; rfl
        le := by rw [hlen]; exact hlt
        room := by rw [hlen]; show s.accepted.length ≤ _; omega }
    · rw [run_pass_stop hgo]
      exact h
  | other dev ram => exact ⟨h.head, h.tail, h.le, h.room⟩

theorem rxFate_lost [NetHost] (s : NetRx) : rxFate s = .lost ↔ NoBuffer s := by
  unfold rxFate NoBuffer
  dsimp only
  by_cases hoff : Offered s
  · rw [if_neg (not_not_intro hoff)]
    split_ifs with hlen hfits
    · exact ⟨fun h => (nomatch h), fun h => h.elim (absurd hoff) fun h => absurd hfits h.2⟩
    · exact ⟨fun _ => .inr ⟨hlen, hfits⟩, fun _ => rfl⟩
    · exact ⟨fun h => (nomatch h), fun h => h.elim (absurd hoff) fun h => absurd h.1 hlen⟩
  · rw [if_pos hoff]
    exact ⟨fun _ => .inl hoff, fun _ => rfl⟩

/-- **An event goes wrong exactly when it is bad.** -/
theorem wrongRx_iff {s : RxRing} (h : RingCounted s) (e : RxEvent) : WrongRx s e ↔ BadRx s e := by
  cases e with
  | arrive pkt =>
    have hroom := h.room
    have hfull := h.full_iff
    have hring := inRing_iff s.accepted.length
    unfold WrongRx BadRx
    by_cases hf : s.dev.rxFull = true
    · rw [if_pos hf]
      have := hfull.1 hf
      omega
    · rw [if_neg hf, h.head, hring, not_not]
      have := mt hfull.2 hf
      exact ⟨fun hw => ⟨by omega, hw⟩, And.right⟩
  | pass host avail =>
    show s.Goes avail ∧ (¬ InRing s.dev.rx_tail ∨ @rxFate host s.rx = .lost) ↔
      s.Goes avail ∧ (Wrapped s.taken.length ∨ @NoBuffer host s.rx)
    rw [h.tail, inRing_iff, not_not, @rxFate_lost host]
  | other dev ram => exact Iff.rfl

/-! ## Calls -/

/-- A run leads from one device and memory to the other. -/
def RunsTo (dev : VirtioDev) (ram : Mem) (dev' : VirtioDev) (ram' : Mem) : Prop :=
  ∀ accepted taken, ∃ (evs : List RxEvent) (accepted' : List Frame) (taken' : List Fate),
    evs.foldl RxEvent.run ⟨dev, ram, accepted, taken⟩ = ⟨dev', ram', accepted', taken'⟩

theorem RunsTo.refl (dev : VirtioDev) (ram : Mem) : RunsTo dev ram dev ram :=
  fun accepted taken => ⟨[], accepted, taken, rfl⟩

theorem RunsTo.trans {d d' d'' : VirtioDev} {m m' m'' : Mem} (h : RunsTo d m d' m') (h' : RunsTo d' m' d'' m'') :
    RunsTo d m d'' m'' := by
  intro accepted taken
  obtain ⟨evs, accepted', taken', hrun⟩ := h accepted taken
  obtain ⟨evs', accepted'', taken'', hrun'⟩ := h' accepted' taken'
  refine ⟨evs ++ evs', accepted'', taken'', ?_⟩
  rw [List.foldl_append, hrun, hrun']

theorem runsTo_receive : ∀ (pkts : List Packet) (dev : VirtioDev) (ram : Mem), RunsTo dev ram (receive dev pkts) ram
  | [], dev, ram => .refl dev ram
  | pkt :: pkts, dev, ram =>
    .trans (fun _ _ => ⟨[.arrive pkt], _, _, rfl⟩) (runsTo_receive pkts (slirpSendPacket dev pkt).1 ram)

/-- Anything but the ring may change. -/
theorem runsTo_other {dev dev' : VirtioDev} {ram ram' : Mem} (h : dev' = dev'.withRing dev) : RunsTo dev ram dev' ram' := by
  intro accepted taken
  refine ⟨[.other dev' ram'], accepted, taken, ?_⟩
  show (⟨dev'.withRing dev, ram', accepted, taken⟩ : RxRing) = _
  rw [← h]

section Host

variable [host : NetHost]

/-- The flag that the loop raises decides nothing. -/
theorem netRxPass_pushed (dev : VirtioDev) (ram : Mem) (pushed : Bool) :
    (netRxPass ⟨dev, ram, false⟩).dev = (netRxPass ⟨dev, ram, pushed⟩).dev ∧
      (netRxPass ⟨dev, ram, false⟩).ram = (netRxPass ⟨dev, ram, pushed⟩).ram := by
  have hdesc : rxDesc ⟨dev, ram, false⟩ = rxDesc ⟨dev, ram, pushed⟩ := rfl
  unfold netRxPass
  dsimp only
  rw [hdesc]
  split <;> exact ⟨rfl, rfl⟩

theorem runsTo_pass {s : NetRx} {avail : U16} (h : s.dev.rx_head ≠ s.dev.rx_tail ∧ (s.dev.queues 0).last_avail ≠ avail) :
    RunsTo s.dev s.ram (netRxPass s).dev (netRxPass s).ram := by
  intro accepted taken
  refine ⟨[.pass host avail], accepted, taken ++ [rxFate ⟨s.dev, s.ram, false⟩], ?_⟩
  obtain ⟨hdev, hram⟩ := netRxPass_pushed s.dev s.ram s.pushed
  rw [← hdev, ← hram]
  exact run_pass (s := ⟨s.dev, s.ram, accepted, taken⟩) h host

theorem runsTo_rxLoop {avail : U16} : ∀ {n : Nat} {s t : NetRx}, netRxLoop avail n s = some t →
    RunsTo s.dev s.ram t.dev t.ram
  | 0, _, _, h => nomatch h
  | n + 1, s, t, h => by
    unfold netRxLoop at h
    split at h
    next hgo => exact (runsTo_pass hgo).trans (runsTo_rxLoop h)
    next =>
      obtain rfl := Option.some.inj h
      exact .refl s.dev s.ram

/-- **A poll is a run** of arrivals, passes, and the interrupt. -/
theorem virtioNetPoll_runsTo {fuel : Nat} {dev : VirtioDev} {ram : Mem} {r : VirtioDev × Mem}
    (h : virtioNetPoll fuel dev ram = some r) : RunsTo dev ram r.1 r.2 := by
  unfold virtioNetPoll at h
  split at h
  · refine (runsTo_receive NetHost.poll dev ram).trans ?_
    generalize receive dev NetHost.poll = d at h
    unfold netRxDrain at h
    split at h
    · obtain ⟨s, hs, rfl⟩ := Option.map_eq_some_iff.1 h
      refine (runsTo_rxLoop hs).trans (runsTo_other ?_)
      dsimp only
      split <;> rfl
    · obtain rfl := Option.some.inj h
      exact .refl d ram
  · obtain rfl := Option.some.inj h
    exact .refl dev ram

theorem runsTo_txLoop {ramSize : U64} {avail : U16} : ∀ {n : Nat} {s t : NetTx}, netTxLoop ramSize avail n s = some t →
    RunsTo s.dev s.ram t.dev t.ram
  | 0, _, _, h => nomatch h
  | n + 1, s, t, h => by
    unfold netTxLoop at h
    split at h
    · obtain rfl := Option.some.inj h
      exact .refl s.dev s.ram
    · obtain ⟨u, hu, ht⟩ := Option.bind_eq_some_iff.1 h
      refine .trans ?_ (runsTo_txLoop ht)
      obtain ⟨w, -, rfl⟩ := Option.map_eq_some_iff.1 hu
      have hinput : RunsTo s.dev s.ram (slirpInput s.dev s.sent w.frame).1 s.ram := by
        unfold slirpInput
        cases w.frame with
        | none => exact .refl s.dev s.ram
        | some f =>
          dsimp only
          split
          · exact runsTo_receive _ s.dev s.ram
          · exact .refl s.dev s.ram
      exact hinput.trans (runsTo_other rfl)

/-- **So is a notify**, which may bring answers. -/
theorem virtioNetProcessQueue_runsTo {ramSize : U64} {fuel : Nat} {dev : VirtioDev} {qid : U32} {ram : Mem} {t : NetTx}
    (h : virtioNetProcessQueue ramSize fuel dev qid ram = some t) : RunsTo dev ram t.dev t.ram := by
  unfold virtioNetProcessQueue at h
  split at h
  · obtain ⟨s, hs, rfl⟩ := Option.map_eq_some_iff.1 h
    refine (runsTo_txLoop hs).trans ?_
    split
    · exact .refl s.dev s.ram
    · exact runsTo_other rfl
  · obtain rfl := Option.some.inj h
    exact .refl dev ram

end Host

/-! ## Packets -/

/-- The packet in slot `idx`. -/
def VirtioDev.rxSlot (dev : VirtioDev) (idx : U32) : Frame := packetBytes (dev.rx_ring_buffers idx) (dev.rx_ring_sizes idx)

theorem packetBytes_length (buf : Mem) (n : U64) : (packetBytes buf n).length = n.toNat := by
  rw [packetBytes, List.length_map, List.length_range]

theorem packetBytes_getElem (buf : Mem) (n : U64) {i : Nat} (hi : i < (packetBytes buf n).length) :
    (packetBytes buf n)[i] = buf (BitVec.ofNat 64 i) := by
  simp only [packetBytes, List.getElem_map, List.getElem_range]

theorem packetBytes_mono (buf : Mem) {n m : U64} (h : n ≤ m) : packetBytes buf n <+: packetBytes buf m := by
  have hle : n.toNat ≤ m.toNat := h
  unfold packetBytes
  rw [show m.toNat = n.toNat + (m.toNat - n.toNat) by omega, List.range_add, List.map_append]
  exact List.prefix_append _ _

theorem packetBytes_copy (buf src : Mem) (n : U64) : packetBytes (buf.copy 0 src 0 n.toNat) n = packetBytes src n := by
  refine List.map_congr_left fun i hi => Mem.copy_zero buf src _ _ ?_
  have hlt := List.mem_range.1 hi
  rw [BitVec.toNat_ofNat]
  omega

theorem toCopy_le (d : VringDesc) (len : U64) : toCopy d len ≤ len := by
  unfold toCopy
  dsimp only
  split
  next h => exact BitVec.le_of_lt h
  next => exact BitVec.le_refl len

theorem arrive_slot {dev : VirtioDev} (hroom : ¬ dev.rxFull = true) (pkt : Packet) :
    (slirpSendPacket dev pkt).1.rxSlot (dev.rx_head.srem 256) = pkt.stored := by
  unfold slirpSendPacket VirtioDev.rxSlot
  rw [if_neg hroom]
  dsimp only
  rw [setAt_self, setAt_self, packetBytes_copy]
  rfl

theorem arrive_slot_ne {dev : VirtioDev} (pkt : Packet) {idx : U32} (h : idx ≠ dev.rx_head.srem 256) :
    (slirpSendPacket dev pkt).1.rxSlot idx = dev.rxSlot idx := by
  unfold slirpSendPacket VirtioDev.rxSlot
  split
  · rfl
  · dsimp only
    rw [setAt_ne _ _ h, setAt_ne _ _ h]

/-- What is delivered of a packet are its first bytes. -/
theorem rxFate_first [NetHost] {s : NetRx} {bytes : Frame} (h : rxFate s = .delivered bytes) :
    bytes <+: s.dev.rxSlot (s.dev.rx_tail.srem 256) := by
  unfold rxFate at h
  dsimp only at h
  split_ifs at h
  obtain rfl := Fate.delivered.inj h
  exact packetBytes_mono _ (toCopy_le _ _)

/-- A byte of a write that is let through. -/
theorem guestWrite_byte {ramSize addr len : U64} (h : guestInBounds ramSize addr len = true) (ram buf : Mem) {i : U64}
    (hi : i < len) : (guestWrite ram ramSize addr buf 0 len).1 (addr - ramBase + i) = buf i := by
  have hsub : addr - ramBase + i - (addr - ramBase) = i := by rw [BitVec.add_comm, BitVec.add_sub_cancel]
  unfold guestWrite
  rw [if_pos h]
  show ram.copy (addr - ramBase) buf 0 len.toNat (addr - ramBase + i) = buf i
  rw [Mem.copy_of_lt _ _ _ _ _ _ (by rw [hsub]; exact hi), hsub]
  exact congrArg buf (BitVec.zero_add i)

/-- The header and the packet, in memory. -/
def rxFilled [NetHost] (s : NetRx) : Mem :=
  let ram := (guestWrite s.ram s.dev.ram_size (rxDesc s).addr (fun _ => 0) 0 10).1
  (guestWrite ram s.dev.ram_size ((rxDesc s).addr + 10) (s.dev.rx_ring_buffers (s.dev.rx_tail.srem 256)) 0
    (toCopy (rxDesc s) (s.dev.rx_ring_sizes (s.dev.rx_tail.srem 256)))).1

theorem netRxPass_ram [NetHost] {s : NetRx} (h : 10 ≤ (rxDesc s).len) : (netRxPass s).ram =
    addUsed (s.dev.queues 0) s.dev.ram_size (rxFilled s) (availHead (s.dev.queues 0) s.dev.ram_size s.ram)
      ((10 + toCopy (rxDesc s) (s.dev.rx_ring_sizes (s.dev.rx_tail.srem 256))).setWidth 32) := by
  unfold netRxPass
  dsimp only
  rw [if_pos h]
  rfl

/-- **What is delivered is in guest RAM**, behind the header, when the used element is added. -/
theorem rxFate_written [NetHost] {s : NetRx} {bytes : Frame} (h : rxFate s = .delivered bytes) {i : Nat}
    (hi : i < bytes.length) : 10 ≤ (rxDesc s).len ∧
      InGuestRam s.dev.ram_size ((rxDesc s).addr + 10) (BitVec.ofNat 64 bytes.length) ∧
      rxFilled s ((rxDesc s).addr + 10 - ramBase + BitVec.ofNat 64 i) = bytes[i] := by
  unfold rxFate at h
  dsimp only at h
  split_ifs at h with hoff hlen hfits
  obtain rfl := Fate.delivered.inj h
  rw [packetBytes_getElem, packetBytes_length, BitVec.ofNat_toNat, BitVec.setWidth_eq]
  refine ⟨hlen, hfits.2, ?_⟩
  refine guestWrite_byte hfits.1 _ _ (BitVec.lt_def.2 ?_)
  rw [packetBytes_length] at hi
  rw [BitVec.toNat_ofNat]
  omega

/-- The ring holds the packets that wait, each in its slot, and those taken were taken in order. -/
structure RxQueue (s : RxRing) : Prop extends RingCounted s, InOrder s where
  slots : Ring.Holds (fun i => s.dev.rxSlot (BitVec.ofNat 32 i)) 256 s.taken.length s.accepted

theorem rxQueue_arrive {s : RxRing} (h : RxQueue s) {pkt : Packet} (hok : ¬ BadRx s (.arrive pkt)) :
    RxQueue ((RxEvent.arrive pkt).run s) := by
  have hcounted := ringCounted_run h.toRingCounted (.arrive pkt)
  by_cases hf : s.dev.rxFull = true
  · rw [run_arrive_full hf]
    exact h
  · have hroom : s.accepted.length < s.taken.length + 256 := by
      have := mt h.full_iff.2 hf
      have := h.room
      omega
    have hidx : s.dev.rx_head.srem 256 = BitVec.ofNat 32 (s.accepted.length % 256) := by
      rw [h.head]
      exact slot_of_counter fun hw => hok ⟨hroom, hw⟩
    rw [run_arrive hf] at hcounted ⊢
    refine { toRingCounted := hcounted, length_le := hcounted.le, delivered := ?_, slots := ?_ }
    · intro i bytes hi
      obtain ⟨p, hp, hpre⟩ := h.delivered i bytes hi
      refine ⟨p, ?_, hpre⟩
      rw [List.getElem?_append_left (List.getElem?_eq_some_iff.1 hp).1]
      exact hp
    · refine Ring.Holds.push h.slots ?_ ?_ (by decide) (Nat.le_refl _) hroom
      · show (slirpSendPacket s.dev pkt).1.rxSlot _ = _
        rw [← hidx]
        exact arrive_slot hf pkt
      · intro i hi hne
        refine arrive_slot_ne pkt ?_
        rw [hidx]
        intro heq
        have := congrArg BitVec.toNat heq
        rw [BitVec.toNat_ofNat, BitVec.toNat_ofNat] at this
        omega

theorem rxQueue_pass {s : RxRing} (h : RxQueue s) {host : NetHost} {avail : U16} (hok : ¬ BadRx s (.pass host avail)) :
    RxQueue ((RxEvent.pass host avail).run s) := by
  have hcounted := ringCounted_run h.toRingCounted (.pass host avail)
  by_cases hgo : s.Goes avail
  · have hidx : s.dev.rx_tail.srem 256 = BitVec.ofNat 32 (s.taken.length % 256) := by
      rw [h.tail]
      exact slot_of_counter fun hw => hok ⟨hgo, .inl hw⟩
    obtain ⟨queues, hdev⟩ := @netRxPass_dev host s.rx
    rw [run_pass hgo] at hcounted ⊢
    refine { toRingCounted := hcounted, length_le := hcounted.le, delivered := ?_, slots := ?_ }
    · intro i bytes hi
      rcases Ring.getElem?_concat hi with ⟨-, hold⟩ | ⟨rfl, hnew⟩
      · exact h.delivered i bytes hold
      · -- the packet taken is the one in its slot
        have hlt := h.goes hgo
        refine ⟨s.accepted[s.taken.length], List.getElem?_eq_getElem hlt, ?_⟩
        have hslot : s.dev.rxSlot (BitVec.ofNat 32 (s.taken.length % 256)) = s.accepted[s.taken.length] :=
          h.slots s.taken.length _ (Nat.le_refl _) (List.getElem?_eq_getElem hlt)
        rw [← hslot, ← hidx]
        exact @rxFate_first host s.rx bytes hnew.symm
    · have hsame : ∀ idx, (@netRxPass host s.rx).dev.rxSlot idx = s.dev.rxSlot idx := by
        rw [hdev]
        exact fun _ => rfl
      have hlen : (s.taken ++ [@rxFate host s.rx]).length = s.taken.length + 1 := List.length_append
      have hslots : Ring.Holds (fun i => s.dev.rxSlot (BitVec.ofNat 32 i)) 256 (s.taken ++ [@rxFate host s.rx]).length
          s.accepted := h.slots.mono (by omega)
      exact hslots.congr (fun i _ => hsame _) (by decide)
  · rw [run_pass_stop hgo]
    exact h

theorem rxQueue_run (s : RxRing) (e : RxEvent) (h : RxQueue s) (hok : ¬ BadRx s e) : RxQueue (e.run s) := by
  cases e with
  | arrive pkt => exact rxQueue_arrive h hok
  | pass host avail => exact rxQueue_pass h hok
  | other dev ram =>
    exact {
      toRingCounted := ringCounted_run h.toRingCounted (.other dev ram)
      length_le := h.length_le
      delivered := h.delivered
      slots := h.slots }

theorem rxQueue_init (irq : U32) (ramSize : U64) (ram : Mem) : RxQueue ⟨virtioNetInit irq ramSize, ram, [], []⟩ where
  head := rfl
  tail := rfl
  le := Nat.le_refl 0
  room := Nat.zero_le _
  length_le := Nat.le_refl 0
  delivered i bytes h := by cases h
  slots i x _ h := by cases h

/-- **The receive ring is a FIFO that drops only what it has to, exactly along the runs where no packet meets a counter
that has wrapped and the guest has a buffer for each one taken.** -/
theorem receiveRing_iff (irq : U32) (ramSize : U64) (ram : Mem) (evs : List RxEvent) :
    (Runs.Along RxEvent.run InOrder ⟨virtioNetInit irq ramSize, ram, [], []⟩ evs ∧
        Runs.Avoids RxEvent.run WrongRx ⟨virtioNetInit irq ramSize, ram, [], []⟩ evs) ↔
      Runs.Avoids RxEvent.run BadRx ⟨virtioNetInit irq ramSize, ram, [], []⟩ evs := by
  have hinit := rxQueue_init irq ramSize ram
  have hnone : Runs.Avoids RxEvent.run (fun _ _ => False) ⟨virtioNetInit irq ramSize, ram, [], []⟩ evs := fun _ _ _ => id
  have hwrong := Runs.avoids_iff_avoids (fun s e (h : RingCounted s) _ => ⟨ringCounted_run h e, wrongRx_iff h e⟩)
    hinit.toRingCounted hnone
  refine ⟨fun h => hwrong.1 h.2, fun hbad => ⟨?_, hwrong.2 hbad⟩⟩
  exact (Runs.along_of_avoids rxQueue_run hinit hbad).mono fun s h => h.toInOrder

/-! ## A counter that wraps -/

/-- A buffer of no bytes, offered once. -/
def emptyBufferRam : Mem := oneDescRam 0 0 0 0

/-- After `n` packets, each dropped for the buffer that is too small. -/
structure Dropping (s : RxRing) (n : Nat) : Prop extends RingCounted s where
  accepted : s.accepted.length = n
  taken : s.taken.length = n
  queue : s.dev.queues 0 = oneDescQueue 1
  ram_size : s.dev.ram_size = 0x10000
  ram : s.ram = emptyBufferRam

/-- A packet arrives, and is taken. -/
def dropOne (pkt : Packet) : List RxEvent := [.arrive pkt, .pass (.quiet 0) 1]

theorem emptyBuffer_len [NetHost] {s : NetRx} (hqueue : s.dev.queues 0 = oneDescQueue 1) (hsize : s.dev.ram_size = 0x10000)
    (hram : s.ram = emptyBufferRam) : ¬ 10 ≤ (rxDesc s).len := by
  have hread : (oneDescQueue 1).readable 0x10000 0 = true := by decide
  have hhead : availHead (oneDescQueue 1) 0x10000 emptyBufferRam = 0 := by decide +kernel
  have hlen : (descAt (oneDescQueue 1) 0x10000 emptyBufferRam 0).len = 0 := by decide +kernel
  unfold rxDesc
  rw [hqueue, hsize, hram]
  dsimp only
  rw [hhead, readDesc_readable _ hread, hlen]
  decide

theorem dropping_round {s : RxRing} {n : Nat} (h : Dropping s n) (pkt : Packet) :
    Dropping ((dropOne pkt).foldl RxEvent.run s) (n + 1) := by
  have hacc := h.accepted
  have htak := h.taken
  have hroom : ¬ s.dev.rxFull = true := by
    rw [h.full_iff]
    omega
  have hlen : (s.accepted ++ [pkt.stored]).length = s.accepted.length + 1 := List.length_append
  have hqueue : (slirpSendPacket s.dev pkt).1.queues 0 = oneDescQueue 1 := by rw [slirpSendPacket_queues, h.queue]
  have hsize : (slirpSendPacket s.dev pkt).1.ram_size = 0x10000 :=
    (slirpSendPacket_frame s.dev pkt).host.ram_size.trans h.ram_size
  have harrived := ringCounted_run h.toRingCounted (.arrive pkt)
  have hpassed := ringCounted_run harrived (.pass (.quiet 0) 1)
  show Dropping ((RxEvent.pass (.quiet 0) 1).run ((RxEvent.arrive pkt).run s)) (n + 1)
  rw [run_arrive hroom] at harrived hpassed ⊢
  have hgo : RxRing.Goes { s with dev := (slirpSendPacket s.dev pkt).1, accepted := s.accepted ++ [pkt.stored] } 1 := by
    refine ⟨harrived.apart ?_, ?_⟩
    · rw [hlen]
      show s.taken.length < _
      omega
    · rw [hqueue]
      decide
  rw [run_pass hgo] at hpassed ⊢
  have hpass := @netRxPass_small (.quiet 0) ⟨(slirpSendPacket s.dev pkt).1, s.ram, false⟩
    (@emptyBuffer_len (.quiet 0) _ hqueue hsize h.ram)
  unfold RxRing.rx at hpassed ⊢
  rw [hpass] at hpassed ⊢
  exact {
    toRingCounted := hpassed
    accepted := by rw [hlen, hacc]
    taken := by rw [List.length_append, htak, List.length_singleton]
    queue := hqueue
    ram_size := hsize
    ram := h.ram }

theorem dropping_rounds (pkt : Packet) : ∀ (k : Nat) {s : RxRing} {n : Nat}, Dropping s n →
    Dropping ((List.replicate k (dropOne pkt)).flatten.foldl RxEvent.run s) (n + k)
  | 0, _, _, h => h
  | k + 1, s, n, h => by
    rw [List.replicate_succ, List.flatten_cons, List.foldl_append, Nat.add_comm k 1, ← Nat.add_assoc]
    exact dropping_rounds pkt k (dropping_round h pkt)

/-- An empty packet. -/
def noPacket : Packet := ⟨fun _ => 0, 0⟩

/-- The queue is set up, and `k` packets come and go. -/
def dropRun (k : Nat) : List RxEvent :=
  .other (oneDescNet 1) emptyBufferRam :: (List.replicate k (dropOne noPacket)).flatten

theorem dropping_run (k : Nat) :
    Dropping ((dropRun k).foldl RxEvent.run ⟨virtioNetInit 9 0x10000, fun _ => 0, [], []⟩) k := by
  rw [dropRun, List.foldl_cons]
  have hset : Dropping
      (RxEvent.run ⟨virtioNetInit 9 0x10000, fun _ => 0, [], []⟩ (.other (oneDescNet 1) emptyBufferRam)) 0 := {
    head := rfl
    tail := rfl
    le := Nat.le_refl 0
    room := Nat.zero_le _
    accepted := rfl
    taken := rfl
    queue := rfl
    ram_size := rfl
    ram := rfl }
  have h := dropping_rounds noPacket k hset
  rwa [Nat.zero_add] at h

/-- The packet after 2^31 + 1 others. -/
theorem not_receiveRing_wrapped : ¬ ∀ (irq : U32) (ramSize : U64) (ram : Mem) (evs : List RxEvent),
    Runs.Along RxEvent.run InOrder ⟨virtioNetInit irq ramSize, ram, [], []⟩ evs ∧
      Runs.Avoids RxEvent.run WrongRx ⟨virtioNetInit irq ramSize, ram, [], []⟩ evs := by
  intro hall
  have hwrong := (hall 9 0x10000 (fun _ => 0) (dropRun (2 ^ 31 + 1) ++ [.arrive noPacket])).2
    (dropRun (2 ^ 31 + 1)) (.arrive noPacket) (List.prefix_refl _)
  have h := dropping_run (2 ^ 31 + 1)
  refine hwrong ?_
  rw [wrongRx_iff h.toRingCounted]
  refine ⟨?_, ?_⟩
  · rw [h.accepted, h.taken]
    omega
  · rw [h.accepted]
    unfold Wrapped
    omega

end PgLinux
