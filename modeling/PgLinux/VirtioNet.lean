import PgLinux.Bus
/-!
# VirtioNet — the network device (`rv64_virtio_net.c`)

libslirp is not among the sources: `NetHost` holds what it hands to `send_packet`, and what uninitialised locals find on
the stack.  A loop whose end the guest decides runs on fuel and is `none` when that runs out.
`rx_ring_sizes` and `rx_ring_buffers` are indexed by the C `int`, in range or not.
-/
namespace PgLinux

/-! ## The host -/

/-- What libslirp hands to `send_packet`. -/
structure Packet where
  buf : Mem
  len : U64

/-- The bytes of a frame. -/
abbrev Frame := List U8

/-- `input` answers the frames that one notify has sent so far, `poll` is what the sockets have for the guest.  `txDesc`
and `txPkt` are the locals of the transmit pass at a `last_avail`, `rxDesc` that of the receive pass at an `rx_tail`. -/
class NetHost where
  input : List Frame → List Packet
  poll : List Packet
  txDesc : U16 → Mem
  txPkt : U16 → Mem
  rxDesc : U32 → Mem

/-- The callback drops the packet. -/
def VirtioDev.rxFull (dev : VirtioDev) : Bool := (256 : U32).sle (dev.rx_head - dev.rx_tail)

/-- `slirp_send_packet`, and what it returns. -/
def slirpSendPacket (dev : VirtioDev) (pkt : Packet) : VirtioDev × U64 :=
  if dev.rxFull then (dev, pkt.len)
  else
    let len := if 2048 < pkt.len then 2048 else pkt.len
    let idx := dev.rx_head.srem 256
    ({ dev with
        rx_ring_sizes := setAt dev.rx_ring_sizes idx len
        rx_ring_buffers := setAt dev.rx_ring_buffers idx ((dev.rx_ring_buffers idx).copy 0 pkt.buf 0 len.toNat)
        rx_head := dev.rx_head + 1 }, len)

/-- Packets handed to the callback one after the other. -/
def receive (dev : VirtioDev) (pkts : List Packet) : VirtioDev := pkts.foldl (fun d pkt => (slirpSendPacket d pkt).1) dev

/-- `vq->last_avail % vq->num`, and the head the available ring holds there. -/
def availHead (vq : VirtioQueue) (ramSize : U64) (ram : Mem) : U16 :=
  let ringIdx : U16 := (vq.last_avail.setWidth 32 % vq.num).setWidth 16
  (guestRead16 ram ramSize (vq.avail_addr + 4 + ringIdx.setWidth 64 * 2) 0).1

/-- The available index; zero where it cannot be read. -/
def availIdx (vq : VirtioQueue) (ramSize : U64) (ram : Mem) : U16 := (guestRead16 ram ramSize (vq.avail_addr + 2) 0).1

def VirtioQueue.advance (vq : VirtioQueue) : VirtioQueue := { vq with last_avail := vq.last_avail + 1 }

/-! ## Transmit -/

/-- The locals of one chain's walk. -/
structure TxWalk where
  desc : Mem
  pkt : Mem
  pkt_len : U32
  cur : U16

section Walk

variable (vq : VirtioQueue) (ramSize : U64) (ram : Mem)

/-- A descriptor's bytes, appended if the sum of the lengths, in 32 bits, is within the buffer. -/
def TxWalk.take (w : TxWalk) (d : VringDesc) : TxWalk :=
  if w.pkt_len + d.len ≤ 65536 then
    { w with
      pkt := (guestRead ram ramSize d.addr w.pkt (w.pkt_len.setWidth 64) (d.len.setWidth 64)).1
      pkt_len := w.pkt_len + d.len }
  else w

/-- One iteration of the chain walk; `false` leaves the loop. -/
def netTxDesc (w : TxWalk) : TxWalk × Bool :=
  let desc := (readDesc vq ramSize ram w.cur w.desc).1
  let d := VringDesc.ofBytes desc
  let w := ({ w with desc := desc }).take ramSize ram d
  ({ w with cur := if d.hasNext then d.next else w.cur }, d.hasNext)

/-- The inner loop: `while (1)`. -/
def netTxWalk : Nat → TxWalk → Option TxWalk
  | 0, _ => none
  | n + 1, w => if (netTxDesc vq ramSize ram w).2 then netTxWalk n (netTxDesc vq ramSize ram w).1
      else some (netTxDesc vq ramSize ram w).1

/-- The walk of the chain at `head`, over what the stack holds. -/
def TxWalk.start (desc pkt : Mem) (head : U16) : TxWalk := ⟨(readDesc vq ramSize ram head desc).1, pkt, 0, head⟩

end Walk

/-- What is handed to `slirp_input`: the packet without its virtio-net header. -/
def TxWalk.frame (w : TxWalk) : Option Frame :=
  if 10 < w.pkt_len then some ((List.range (w.pkt_len.toNat - 10)).map fun i => w.pkt (BitVec.ofNat 64 (10 + i))) else none

/-- The loop's state; `sent` is a ghost, the frames handed over so far. -/
structure NetTx where
  dev : VirtioDev
  ram : Mem
  sent : List Frame

section Device

variable [NetHost] (ramSize : U64)

/-- `slirp_input`, which may call back. -/
def slirpInput (dev : VirtioDev) (sent : List Frame) (frame : Option Frame) : VirtioDev × List Frame :=
  match frame with
  | none => (dev, sent)
  | some f => if dev.slirp then (receive dev (NetHost.input (sent ++ [f])), sent ++ [f]) else (dev, sent)

/-- One iteration of the transmit loop, with fuel for the chain. -/
def netTxPass (fuel : Nat) (s : NetTx) : Option NetTx :=
  let vq := s.dev.queues 1
  let head := availHead vq ramSize s.ram
  (netTxWalk vq ramSize s.ram fuel
    (.start vq ramSize s.ram (NetHost.txDesc vq.last_avail) (NetHost.txPkt vq.last_avail) head)).map fun w =>
    let r := slirpInput s.dev s.sent w.frame
    { dev := { r.1 with queues := setQueue r.1.queues 1 vq.advance }, ram := addUsed vq ramSize s.ram head 0, sent := r.2 }

/-- The transmit loop. -/
def netTxLoop (avail : U16) : Nat → NetTx → Option NetTx
  | 0, _ => none
  | n + 1, s => if (s.dev.queues 1).last_avail = avail then some s else (netTxPass ramSize n s).bind (netTxLoop avail n)

/-- `virtio_net_process_queue`. -/
def virtioNetProcessQueue (fuel : Nat) (dev : VirtioDev) (qid : U32) (ram : Mem) : Option NetTx :=
  if qid = 1 then
    let start := (dev.queues 1).last_avail
    (netTxLoop ramSize (availIdx (dev.queues 1) ramSize ram) fuel ⟨dev, ram, []⟩).map fun s =>
      if (s.dev.queues 1).last_avail = start then s
      else { s with dev := { s.dev with int_status := s.dev.int_status ||| virtioIntUsedRing } }
  else some ⟨dev, ram, []⟩

/-! ## Receive -/

structure NetRx where
  dev : VirtioDev
  ram : Mem
  pushed : Bool

/-- The descriptor offered to the packet at the tail of the ring. -/
def rxDesc (s : NetRx) : VringDesc :=
  let vq := s.dev.queues 0
  .ofBytes (readDesc vq s.dev.ram_size s.ram (availHead vq s.dev.ram_size s.ram) (NetHost.rxDesc s.dev.rx_tail)).1

/-- How much of a packet of `len` bytes is copied behind the header. -/
def toCopy (d : VringDesc) (len : U64) : U64 :=
  let payloadSpace := (d.len - 10).setWidth 64
  if payloadSpace < len then payloadSpace else len

/-- One iteration of the receive loop. -/
def netRxPass (s : NetRx) : NetRx :=
  let idx := s.dev.rx_tail.srem 256
  let vq := s.dev.queues 0
  let d := rxDesc s
  let n := toCopy d (s.dev.rx_ring_sizes idx)
  if 10 ≤ d.len then
    let ram := (guestWrite s.ram s.dev.ram_size d.addr (fun _ => 0) 0 10).1
    let ram := (guestWrite ram s.dev.ram_size (d.addr + 10) (s.dev.rx_ring_buffers idx) 0 n).1
    { dev := { s.dev with queues := setQueue s.dev.queues 0 vq.advance, rx_tail := s.dev.rx_tail + 1 }
      ram := addUsed vq s.dev.ram_size ram (availHead vq s.dev.ram_size s.ram) ((10 + n).setWidth 32)
      pushed := true }
  else { s with dev := { s.dev with rx_tail := s.dev.rx_tail + 1 } }

/-- The receive loop. -/
def netRxLoop (avail : U16) : Nat → NetRx → Option NetRx
  | 0, _ => none
  | n + 1, s => if s.dev.rx_head ≠ s.dev.rx_tail ∧ (s.dev.queues 0).last_avail ≠ avail then netRxLoop avail n (netRxPass s)
      else some s

/-- The second half of `virtio_net_poll`. -/
def netRxDrain (fuel : Nat) (dev : VirtioDev) (ram : Mem) : Option (VirtioDev × Mem) :=
  if (dev.queues 0).ready ≠ 0 ∧ dev.rx_head ≠ dev.rx_tail then
    (netRxLoop (availIdx (dev.queues 0) dev.ram_size ram) fuel ⟨dev, ram, false⟩).map fun s =>
      (if s.pushed then { s.dev with int_status := s.dev.int_status ||| virtioIntUsedRing } else s.dev, s.ram)
  else some (dev, ram)

/-- `virtio_net_poll`: the sockets, then the ring. -/
def virtioNetPoll (fuel : Nat) (dev : VirtioDev) (ram : Mem) : Option (VirtioDev × Mem) :=
  if dev.slirp then netRxDrain fuel (receive dev NetHost.poll) ram else some (dev, ram)

/-- The device that the machine polls and notifies, on one host. -/
abbrev NetHost.device (fuel : Nat) : NetDevice where
  processQueue _ dev qid ram ramSize := (virtioNetProcessQueue ramSize fuel dev qid ram).map fun s => (s.dev, s.ram)
  poll _ dev ram := virtioNetPoll fuel dev ram

end Device

/-! ## What packets leave alone -/

/-- The same device on the same host, whatever its registers and its ring hold. -/
structure SameHost (dev dev' : VirtioDev) : Prop where
  device_id : dev'.device_id = dev.device_id
  irq : dev'.irq = dev.irq
  disk_data : dev'.disk_data = dev.disk_data
  disk_size : dev'.disk_size = dev.disk_size
  slirp : dev'.slirp = dev.slirp
  ram : dev'.ram = dev.ram
  ram_size : dev'.ram_size = dev.ram_size
  mark_dirty : dev'.mark_dirty = dev.mark_dirty

theorem SameHost.refl (dev : VirtioDev) : SameHost dev dev := ⟨rfl, rfl, rfl, rfl, rfl, rfl, rfl, rfl⟩

theorem SameHost.trans {d d' d'' : VirtioDev} (h : SameHost d d') (h' : SameHost d' d'') : SameHost d d'' where
  device_id := h'.device_id.trans h.device_id
  irq := h'.irq.trans h.irq
  disk_data := h'.disk_data.trans h.disk_data
  disk_size := h'.disk_size.trans h.disk_size
  slirp := h'.slirp.trans h.slirp
  ram := h'.ram.trans h.ram
  ram_size := h'.ram_size.trans h.ram_size
  mark_dirty := h'.mark_dirty.trans h.mark_dirty

/-- The network changes queues and ring of its device, and may raise the used-ring bit. -/
def NetFrame (dev dev' : VirtioDev) : Prop := ∃ queues int_status bufs sizes head tail,
  (int_status = dev.int_status ∨ int_status = dev.int_status ||| virtioIntUsedRing) ∧
    dev' = { dev with
      queues := queues, int_status := int_status, rx_ring_buffers := bufs, rx_ring_sizes := sizes, rx_head := head,
      rx_tail := tail }

theorem NetFrame.refl (dev : VirtioDev) : NetFrame dev dev := ⟨_, _, _, _, _, _, .inl rfl, rfl⟩

theorem NetFrame.trans {d d' d'' : VirtioDev} (h : NetFrame d d') (h' : NetFrame d' d'') : NetFrame d d'' := by
  obtain ⟨q, i, b, z, hd, tl, hi, rfl⟩ := h
  obtain ⟨q', i', b', z', hd', tl', hi', rfl⟩ := h'
  refine ⟨q', i', b', z', hd', tl', ?_, rfl⟩
  rcases hi with rfl | rfl
  · exact hi'
  · rcases hi' with rfl | rfl
    · exact .inr rfl
    · exact .inr (by dsimp only; rw [BitVec.or_assoc, BitVec.or_self])

theorem NetFrame.host {dev dev' : VirtioDev} (h : NetFrame dev dev') : SameHost dev dev' := by
  obtain ⟨_, _, _, _, _, _, _, rfl⟩ := h
  exact ⟨rfl, rfl, rfl, rfl, rfl, rfl, rfl, rfl⟩

/-- Raising the used-ring bit, or not. -/
theorem netFrame_signal (dev : VirtioDev) (c : Prop) [Decidable c] :
    NetFrame dev (if c then { dev with int_status := dev.int_status ||| virtioIntUsedRing } else dev) := by
  split
  · exact ⟨_, _, _, _, _, _, .inr rfl, rfl⟩
  · exact .refl dev

theorem slirpSendPacket_queues (dev : VirtioDev) (pkt : Packet) : (slirpSendPacket dev pkt).1.queues = dev.queues := by
  unfold slirpSendPacket
  split <;> rfl

theorem slirpSendPacket_frame (dev : VirtioDev) (pkt : Packet) : NetFrame dev (slirpSendPacket dev pkt).1 := by
  unfold slirpSendPacket
  split
  · exact .refl dev
  · exact ⟨_, _, _, _, _, _, .inl rfl, rfl⟩

theorem receive_queues : ∀ (pkts : List Packet) (dev : VirtioDev), (receive dev pkts).queues = dev.queues
  | [], _ => rfl
  | pkt :: pkts, dev => (receive_queues pkts _).trans (slirpSendPacket_queues dev pkt)

theorem receive_frame : ∀ (pkts : List Packet) (dev : VirtioDev), NetFrame dev (receive dev pkts)
  | [], dev => .refl dev
  | pkt :: pkts, dev => (slirpSendPacket_frame dev pkt).trans (receive_frame pkts _)

section Host

variable [NetHost] {ramSize : U64}

theorem slirpInput_frame (dev : VirtioDev) (sent : List Frame) (frame : Option Frame) :
    NetFrame dev (slirpInput dev sent frame).1 := by
  unfold slirpInput
  cases frame with
  | none => exact .refl dev
  | some f =>
    dsimp only
    split
    · exact receive_frame _ _
    · exact .refl dev

/-- **What a transmit pass leaves**: the queue one further, and a used element in memory. -/
theorem netTxPass_some {fuel : Nat} {s t : NetTx} (h : netTxPass ramSize fuel s = some t) :
    t.dev.queues 1 = (s.dev.queues 1).advance ∧ NetFrame s.dev t.dev ∧
      t.ram = addUsed (s.dev.queues 1) ramSize s.ram (availHead (s.dev.queues 1) ramSize s.ram) 0 := by
  obtain ⟨w, -, rfl⟩ := Option.map_eq_some_iff.1 h
  refine ⟨?_, (slirpInput_frame s.dev s.sent w.frame).trans ⟨_, _, _, _, _, _, .inl rfl, rfl⟩, rfl⟩
  show setQueue (slirpInput s.dev s.sent w.frame).1.queues 1 (s.dev.queues 1).advance 1 = _
  exact if_pos rfl

theorem netTxLoop_frame {avail : U16} : ∀ {n : Nat} {s t : NetTx}, netTxLoop ramSize avail n s = some t →
    NetFrame s.dev t.dev
  | 0, _, _, h => nomatch h
  | n + 1, s, t, h => by
    unfold netTxLoop at h
    split at h
    · obtain rfl := Option.some.inj h
      exact .refl s.dev
    · obtain ⟨u, hu, ht⟩ := Option.bind_eq_some_iff.1 h
      exact (netTxPass_some hu).2.1.trans (netTxLoop_frame ht)

theorem virtioNetProcessQueue_frame {fuel : Nat} {dev : VirtioDev} {qid : U32} {ram : Mem} {t : NetTx}
    (h : virtioNetProcessQueue ramSize fuel dev qid ram = some t) : NetFrame dev t.dev := by
  unfold virtioNetProcessQueue at h
  split at h
  · obtain ⟨s, hs, rfl⟩ := Option.map_eq_some_iff.1 h
    refine (netTxLoop_frame hs).trans ?_
    split
    · exact .refl s.dev
    · exact ⟨_, _, _, _, _, _, .inr rfl, rfl⟩
  · obtain rfl := Option.some.inj h
    exact .refl dev

theorem netRxPass_frame (s : NetRx) : NetFrame s.dev (netRxPass s).dev := by
  unfold netRxPass
  dsimp only
  split <;> exact ⟨_, _, _, _, _, _, .inl rfl, rfl⟩

theorem netRxLoop_frame {avail : U16} : ∀ {n : Nat} {s t : NetRx}, netRxLoop avail n s = some t → NetFrame s.dev t.dev
  | 0, _, _, h => nomatch h
  | n + 1, s, t, h => by
    unfold netRxLoop at h
    split at h
    · exact (netRxPass_frame s).trans (netRxLoop_frame h)
    · obtain rfl := Option.some.inj h
      exact .refl s.dev

theorem virtioNetPoll_frame {fuel : Nat} {dev : VirtioDev} {ram : Mem} {r : VirtioDev × Mem}
    (h : virtioNetPoll fuel dev ram = some r) : NetFrame dev r.1 := by
  unfold virtioNetPoll at h
  split at h
  · refine (receive_frame NetHost.poll dev).trans ?_
    generalize receive dev NetHost.poll = d at h
    unfold netRxDrain at h
    split at h
    · obtain ⟨s, hs, rfl⟩ := Option.map_eq_some_iff.1 h
      exact (netRxLoop_frame hs).trans (netFrame_signal s.dev _)
    · obtain rfl := Option.some.inj h
      exact .refl d
  · obtain rfl := Option.some.inj h
    exact .refl dev

/-- **The network moves packets and nothing else.** -/
theorem device_processQueue_frame (fuel : Nat) (dev : VirtioDev) (qid : U32) (mem : BlkMem) :
    NetFrame dev (@netNotify dev ramSize (NetHost.device fuel) qid mem).2 := by
  refine netCall_device dev (.refl dev) fun k r hr => ?_
  obtain ⟨t, ht, rfl⟩ := Option.map_eq_some_iff.1 hr
  exact virtioNetProcessQueue_frame ht

theorem device_poll_frame (fuel : Nat) (dev : VirtioDev) (mem : BlkMem) :
    NetFrame dev (@netPoll dev (NetHost.device fuel) mem).2 :=
  netCall_device dev (.refl dev) fun _ _ => virtioNetPoll_frame

end Host

/-! ## One descriptor -/

/-- A stack of one byte value, and no packets. -/
abbrev NetHost.quiet (stack : U8) : NetHost := ⟨fun _ => [], [], fun _ _ => stack, fun _ _ => stack, fun _ _ => stack⟩

/-- Descriptor 0 at the start of RAM, and an available ring that holds it once. -/
def oneDescRam (addr : U64) (len : U32) (flags next : U16) : Mem :=
  let table := (((Mem.write (fun _ => 0) 0 8 addr).write 8 4 (len.setWidth 64)).write 12 2 (flags.setWidth 64)).write 14 2
    (next.setWidth 64)
  table.write 0x1002 2 1

def oneDescQueue (num : U32) : VirtioQueue := ⟨num, 1, ramBase, ramBase + 0x1000, ramBase + 0x2000, 0⟩

/-- The network device, both queues ready. -/
def oneDescNet (num : U32) : VirtioDev := { virtioNetInit 9 0x10000 with queues := fun _ => oneDescQueue num }

end PgLinux
