import PgLinux.Dma
import PgLinux.Lib.Runs
import PgLinux.VirtioNet
/-!
# QueueRemainder — the remainders by the queue size

Each loop over a ring takes `% vq->num` for its slots.  The divisors of a loop are the values it divides by, in order:
one for the head it fetches and one for the used element it adds.  The registers of a queue are set in any order, and no
loop looks at the size first.
-/
namespace PgLinux

/-! ## Divisors -/

/-- The divisors of `virtioBlkLoop`. -/
def blkDivisors (dev : VirtioDev) (ramSize : U64) : Nat → BlkMem → VirtioQueue → List U32
  | 0, _, _ => []
  | n + 1, mem, vq =>
    let ringIdx : U16 := (vq.last_avail.setWidth 32 % vq.num).setWidth 16
    let head := guestRead16 mem.ram ramSize (vq.avail_addr + 4 + ringIdx.setWidth 64 * 2) 0
    vq.num :: if !head.2 then []
      else
        let w := virtioBlkRequest dev vq ramSize mem head.1
        let mem' := { w.mem with ram := addUsed vq ramSize (writeStatus vq ramSize w head.1) head.1 w.total_bytes }
        vq.num :: blkDivisors dev ramSize n mem' { vq with last_avail := vq.last_avail + 1 }

/-- Those of `virtio_blk_process_queue`. -/
def blkQueueDivisors (dev : VirtioDev) (ramSize : U64) (qi : U32) (mem : BlkMem) : List U32 :=
  let vq := dev.queues qi
  if vq.ready = 0 ∨ vq.desc_addr = 0 then []
  else
    let avail := guestRead16 mem.ram ramSize (vq.avail_addr + 2) 0
    if !avail.2 then [] else blkDivisors dev ramSize (avail.1 - vq.last_avail).toNat mem vq

section Net

variable [NetHost] (ramSize : U64)

/-- Those of `netTxLoop`. -/
def netTxDivisors (avail : U16) : Nat → NetTx → List U32
  | 0, _ => []
  | n + 1, s => if (s.dev.queues 1).last_avail = avail then []
    else (s.dev.queues 1).num :: match netTxPass ramSize n s with
      | none => []
      | some t => (s.dev.queues 1).num :: netTxDivisors avail n t

/-- Those of `virtio_net_process_queue`. -/
def netQueueDivisors (fuel : Nat) (dev : VirtioDev) (qid : U32) (ram : Mem) : List U32 :=
  if qid = 1 then netTxDivisors ramSize (availIdx (dev.queues 1) ramSize ram) fuel ⟨dev, ram, []⟩ else []

/-- Those of `netRxLoop`; a descriptor too small for the header gets no used element. -/
def netRxDivisors (avail : U16) : Nat → NetRx → List U32
  | 0, _ => []
  | n + 1, s => if s.dev.rx_head ≠ s.dev.rx_tail ∧ (s.dev.queues 0).last_avail ≠ avail then
      (s.dev.queues 0).num :: (if 10 ≤ (rxDesc s).len then [(s.dev.queues 0).num] else []) ++ netRxDivisors avail n (netRxPass s)
    else []

/-- Those of `virtio_net_poll`. -/
def pollDivisors (fuel : Nat) (dev : VirtioDev) (ram : Mem) : List U32 :=
  if dev.slirp then
    let d := receive dev NetHost.poll
    if (d.queues 0).ready ≠ 0 ∧ d.rx_head ≠ d.rx_tail then
      netRxDivisors (availIdx (d.queues 0) d.ram_size ram) fuel ⟨d, ram, false⟩
    else []
  else []

/-- Those of `VIRTIO_MMIO_QUEUE_NOTIFY`. -/
def notifyDivisors (fuel : Nat) (dev : VirtioDev) (val : U64) (mem : BlkMem) : List U32 :=
  if val < 4 ∧ (dev.queues (val.setWidth 32)).ready ≠ 0 then
    if dev.device_id = virtioDevBlk then blkQueueDivisors dev ramSize (val.setWidth 32) mem
    else if dev.device_id = virtioDevNet then netQueueDivisors ramSize fuel dev (val.setWidth 32) mem.ram
    else []
  else []

end Net

/-! ## Runs -/

/-- A register write, a poll, a packet that arrives, or anything that changes memory. -/
inductive VirtioEvent where
  | store (host : NetHost) (fuel : Nat) (offset val : U64)
  | poll (host : NetHost) (fuel : Nat)
  | arrive (pkt : Packet)
  | memory (mem : BlkMem)

def VirtioEvent.run (ramSize : U64) (s : BlkMem × VirtioDev) : VirtioEvent → BlkMem × VirtioDev
  | .store host fuel offset val => @virtioMmioStore s.2 ramSize (@NetHost.device host fuel) offset val s.1
  | .poll host fuel => @netPoll s.2 (@NetHost.device host fuel) s.1
  | .arrive pkt => (s.1, (slirpSendPacket s.2 pkt).1)
  | .memory mem => (mem, s.2)

/-- The event divides by zero, however long its loops run. -/
def DividesByZero (ramSize : U64) (s : BlkMem × VirtioDev) : VirtioEvent → Prop
  | .store host _ offset val => offset = 0x050 ∧ ∃ fuel, 0 ∈ @notifyDivisors host ramSize fuel s.2 val s.1
  | .poll host _ => ∃ fuel, 0 ∈ @pollDivisors host fuel s.2 s.1.ram
  | .arrive _ => False
  | .memory _ => False

/-- A queue of size zero, ready, with entries to look at. -/
structure EmptyRing (ramSize : U64) (vq : VirtioQueue) (ram : Mem) : Prop where
  num : vq.num = 0
  ready : vq.ready ≠ 0
  pending : availIdx vq ramSize ram ≠ vq.last_avail

/-- The event makes a device work on such a queue: the block device wants a table and a ring it can read, the network
device sends from queue 1 and receives, what has arrived, into queue 0. -/
def WorksOnEmpty (ramSize : U64) (s : BlkMem × VirtioDev) : VirtioEvent → Prop
  | .store _ _ offset val => offset = 0x050 ∧ val < 4 ∧ EmptyRing ramSize (s.2.queues (val.setWidth 32)) s.1.ram ∧
    (s.2.device_id = virtioDevBlk ∧ (s.2.queues (val.setWidth 32)).desc_addr ≠ 0 ∧
        guestInBounds ramSize ((s.2.queues (val.setWidth 32)).avail_addr + 2) 2 = true ∨
      s.2.device_id = virtioDevNet ∧ val = 1)
  | .poll host _ => s.2.slirp = true ∧ EmptyRing s.2.ram_size (s.2.queues 0) s.1.ram ∧
    (receive s.2 host.poll).rx_head ≠ (receive s.2 host.poll).rx_tail
  | .arrive _ => False
  | .memory _ => False

/-! ## Each loop -/

/-- **A loop divides by zero exactly when it is entered with the size zero.** -/
theorem zero_mem_blkDivisors (dev : VirtioDev) (ramSize : U64) : ∀ (n : Nat) (mem : BlkMem) (vq : VirtioQueue),
    0 ∈ blkDivisors dev ramSize n mem vq ↔ 0 < n ∧ vq.num = 0
  | 0, _, _ => by simp [blkDivisors]
  | n + 1, mem, vq => by
    unfold blkDivisors
    dsimp only
    rw [List.mem_cons]
    constructor
    · rintro (h | h)
      · exact ⟨Nat.succ_pos n, h.symm⟩
      · split at h
        · cases h
        · rcases List.mem_cons.1 h with h | h
          · exact ⟨Nat.succ_pos n, h.symm⟩
          · exact ⟨Nat.succ_pos n, ((zero_mem_blkDivisors dev ramSize n _ _).1 h).2⟩
    · rintro ⟨-, h⟩
      exact .inl h.symm

section Net

variable [NetHost] {ramSize : U64}

theorem zero_mem_netTxDivisors {avail : U16} : ∀ {n : Nat} {s : NetTx}, 0 ∈ netTxDivisors ramSize avail n s →
    (s.dev.queues 1).last_avail ≠ avail ∧ (s.dev.queues 1).num = 0
  | n + 1, s, h => by
    unfold netTxDivisors at h
    split at h
    · cases h
    next hne =>
      refine ⟨hne, ?_⟩
      rcases List.mem_cons.1 h with h | h
      · exact h.symm
      · cases ht : netTxPass ramSize n s with
        | none =>
          rw [ht] at h
          cases h
        | some t =>
          rw [ht] at h
          rcases List.mem_cons.1 h with h | h
          · exact h.symm
          · have hnum := (zero_mem_netTxDivisors h).2
            rwa [(netTxPass_some ht).1] at hnum

theorem exists_zero_netTxDivisors (avail : U16) (s : NetTx) : (∃ n, 0 ∈ netTxDivisors ramSize avail n s) ↔
    (s.dev.queues 1).last_avail ≠ avail ∧ (s.dev.queues 1).num = 0 := by
  constructor
  · rintro ⟨n, h⟩
    exact zero_mem_netTxDivisors h
  · rintro ⟨hne, hnum⟩
    refine ⟨1, ?_⟩
    unfold netTxDivisors
    rw [if_neg hne, hnum]
    exact List.mem_cons_self

theorem exists_zero_netQueueDivisors (dev : VirtioDev) (qid : U32) (ram : Mem) :
    (∃ n, 0 ∈ netQueueDivisors ramSize n dev qid ram) ↔ qid = 1 ∧
      (dev.queues 1).last_avail ≠ availIdx (dev.queues 1) ramSize ram ∧ (dev.queues 1).num = 0 := by
  unfold netQueueDivisors
  by_cases hq : qid = 1
  · simp only [if_pos hq, exists_zero_netTxDivisors]
    exact ⟨fun h => ⟨hq, h⟩, And.right⟩
  · simp only [if_neg hq, List.not_mem_nil, exists_false, false_iff]
    exact fun h => hq h.1

theorem netRxPass_num (s : NetRx) : ((netRxPass s).dev.queues 0).num = (s.dev.queues 0).num := by
  unfold netRxPass
  dsimp only
  split
  · show (setQueue s.dev.queues 0 (s.dev.queues 0).advance 0).num = _
    unfold setQueue
    rw [if_pos rfl]
    rfl
  · rfl

theorem zero_mem_netRxDivisors {avail : U16} : ∀ {n : Nat} {s : NetRx}, 0 ∈ netRxDivisors avail n s →
    s.dev.rx_head ≠ s.dev.rx_tail ∧ (s.dev.queues 0).last_avail ≠ avail ∧ (s.dev.queues 0).num = 0
  | n + 1, s, h => by
    unfold netRxDivisors at h
    split at h
    next hgo =>
      refine ⟨hgo.1, hgo.2, ?_⟩
      rw [List.cons_append, List.mem_cons, List.mem_append] at h
      rcases h with h | h | h
      · exact h.symm
      · split at h
        · exact (List.mem_singleton.1 h).symm
        · cases h
      · rw [← netRxPass_num s]
        exact (zero_mem_netRxDivisors h).2.2
    · cases h

theorem exists_zero_netRxDivisors (avail : U16) (s : NetRx) : (∃ n, 0 ∈ netRxDivisors avail n s) ↔
    s.dev.rx_head ≠ s.dev.rx_tail ∧ (s.dev.queues 0).last_avail ≠ avail ∧ (s.dev.queues 0).num = 0 := by
  constructor
  · rintro ⟨n, h⟩
    exact zero_mem_netRxDivisors h
  · rintro ⟨hne, hlast, hnum⟩
    refine ⟨1, ?_⟩
    unfold netRxDivisors
    rw [if_pos ⟨hne, hlast⟩, hnum]
    exact List.mem_cons_self

end Net

/-! ## Each event -/

theorem zero_mem_blkQueueDivisors (dev : VirtioDev) (ramSize : U64) (qi : U32) (mem : BlkMem) :
    0 ∈ blkQueueDivisors dev ramSize qi mem ↔ EmptyRing ramSize (dev.queues qi) mem.ram ∧ (dev.queues qi).desc_addr ≠ 0 ∧
      guestInBounds ramSize ((dev.queues qi).avail_addr + 2) 2 = true := by
  have hpos : ∀ a b : U16, 0 < (a - b).toNat ↔ a ≠ b := fun a b => by
    constructor
    · rintro h rfl
      rw [BitVec.sub_self] at h
      cases h
    · intro h
      bv_omega
  have hsnd : (guestRead16 mem.ram ramSize ((dev.queues qi).avail_addr + 2) 0).2 =
      guestInBounds ramSize ((dev.queues qi).avail_addr + 2) 2 := guestRead_snd ..
  unfold blkQueueDivisors
  dsimp only
  by_cases hidle : (dev.queues qi).ready = 0 ∨ (dev.queues qi).desc_addr = 0
  · rw [if_pos hidle]
    refine ⟨fun h => (nomatch h), fun ⟨hring, hdesc, _⟩ => ?_⟩
    exact absurd hidle (not_or.2 ⟨hring.ready, hdesc⟩)
  · rw [if_neg hidle, hsnd]
    obtain ⟨hready, hdesc⟩ := not_or.1 hidle
    cases hin : guestInBounds ramSize ((dev.queues qi).avail_addr + 2) 2 with
    | false => exact ⟨fun h => (nomatch h), fun h => nomatch h.2.2⟩
    | true =>
      rw [if_neg (by decide), zero_mem_blkDivisors, hpos]
      constructor
      · rintro ⟨hne, hnum⟩
        exact ⟨⟨hnum, hready, hne⟩, hdesc, rfl⟩
      · rintro ⟨hring, -, -⟩
        exact ⟨hring.pending, hring.num⟩

theorem devices_ne : virtioDevNet ≠ virtioDevBlk := by decide

/-- **An event divides by zero exactly when it works on a queue of size zero.** -/
theorem dividesByZero_iff (ramSize : U64) (s : BlkMem × VirtioDev) (e : VirtioEvent) :
    DividesByZero ramSize s e ↔ WorksOnEmpty ramSize s e := by
  cases e with
  | arrive pkt => exact Iff.rfl
  | memory mem => exact Iff.rfl
  | store host fuel offset val =>
    refine and_congr_right fun _ => ?_
    unfold notifyDivisors
    by_cases hgo : val < 4 ∧ (s.2.queues (val.setWidth 32)).ready ≠ 0
    · simp only [if_pos hgo]
      by_cases hblk : s.2.device_id = virtioDevBlk
      · simp only [if_pos hblk, exists_const, zero_mem_blkQueueDivisors]
        have hnet : s.2.device_id ≠ virtioDevNet := fun h => devices_ne (h.symm.trans hblk)
        constructor
        · rintro ⟨hring, hdesc⟩
          exact ⟨hgo.1, hring, .inl ⟨hblk, hdesc⟩⟩
        · rintro ⟨-, hring, ⟨-, hdesc⟩ | ⟨h, -⟩⟩
          · exact ⟨hring, hdesc⟩
          · exact absurd h hnet
      · simp only [if_neg hblk]
        by_cases hnet : s.2.device_id = virtioDevNet
        · have hone : (val.setWidth 32 : U32) = 1 ↔ val = 1 := by
            have hlt : val.toNat < 4 := hgo.1
            constructor <;> intro h <;> bv_omega
          simp only [if_pos hnet, exists_zero_netQueueDivisors]
          constructor
          · rintro ⟨hq, hne, hnum⟩
            have hready := hgo.2
            rw [hq] at hready ⊢
            exact ⟨hgo.1, ⟨hnum, hready, hne.symm⟩, .inr ⟨hnet, hone.1 hq⟩⟩
          · rintro ⟨-, hring, ⟨h, -⟩ | ⟨-, hval⟩⟩
            · exact absurd h hblk
            · have hq := hone.2 hval
              rw [hq] at hring
              exact ⟨hq, hring.pending.symm, hring.num⟩
        · simp [hnet, hblk]
    · simp only [if_neg hgo, List.not_mem_nil, exists_false, false_iff]
      rintro ⟨hlt, hring, -⟩
      exact hgo ⟨hlt, hring.ready⟩
  | poll host fuel =>
    have hqueues := receive_queues host.poll s.2
    have hsize := (receive_frame host.poll s.2).host.ram_size
    show (∃ fuel, 0 ∈ @pollDivisors host fuel s.2 s.1.ram) ↔ _
    unfold pollDivisors
    cases hslirp : s.2.slirp with
    | false => simp [WorksOnEmpty, hslirp]
    | true =>
      simp only [if_true]
      by_cases hgo : ((receive s.2 host.poll).queues 0).ready ≠ 0 ∧
          (receive s.2 host.poll).rx_head ≠ (receive s.2 host.poll).rx_tail
      · simp only [if_pos hgo, exists_zero_netRxDivisors]
        rw [hqueues] at hgo ⊢
        rw [hsize]
        constructor
        · rintro ⟨hne, hlast, hnum⟩
          exact ⟨hslirp, ⟨hnum, hgo.1, hlast.symm⟩, hne⟩
        · rintro ⟨-, hring, hne⟩
          exact ⟨hne, hring.pending.symm, hring.num⟩
      · simp only [if_neg hgo, List.not_mem_nil, exists_false, false_iff]
        rintro ⟨-, hring, hne⟩
        rw [hqueues] at hgo
        exact hgo ⟨hring.ready, hne⟩

/-- **No remainder by zero is computed exactly when no device works on a queue of size zero.** -/
theorem remaindersSafe_iff (ramSize : U64) (s : BlkMem × VirtioDev) (evs : List VirtioEvent) :
    Runs.Avoids (VirtioEvent.run ramSize) (DividesByZero ramSize) s evs ↔
      Runs.Avoids (VirtioEvent.run ramSize) (WorksOnEmpty ramSize) s evs := by
  constructor <;> intro h pre e hpre hbad
  · exact h pre e hpre ((dividesByZero_iff ramSize _ e).2 hbad)
  · exact h pre e hpre ((dividesByZero_iff ramSize _ e).1 hbad)

section Instances

/-- The writes of a driver that forgets the size. -/
def sizelessWrites : List VirtioEvent :=
  [.store (.quiet 0) 1 0x030 1, .store (.quiet 0) 1 0x090 0x80001000, .store (.quiet 0) 1 0x044 1]

/-- Queue 1 of a fresh network device, made ready without a size, and notified. -/
theorem not_remaindersSafe_sizeless : ¬ Runs.Avoids (VirtioEvent.run 0x10000) (DividesByZero 0x10000)
    (⟨oneDescRam 0 0 0 0, fun _ => 0, none, [], ⟨0, 0⟩⟩, virtioNetInit 9 0x10000)
    (sizelessWrites ++ [.store (.quiet 0) 1 0x050 1]) := by
  intro h
  refine h sizelessWrites (.store (.quiet 0) 1 0x050 1) List.prefix_rfl ⟨rfl, 1, ?_⟩
  decide +kernel

end Instances

end PgLinux
