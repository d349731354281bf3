import PgLinux.Lib.Orbit
import PgLinux.VirtioNet
import PgLinux.Virtqueue
/-!
# NetTermination — when the loops of the network device end (`virtio_net_process_queue`, `virtio_net_poll`)

The chain walk of the transmit loop keeps its descriptor where the next one cannot be read, and follows the NEXT links
without a bound.  The receive loop takes a packet off the ring in each pass.
-/
namespace PgLinux

/-! ## The condition -/

section Links

variable (vq : VirtioQueue) (ramSize : U64) (ram : Mem)

/-- Where the walk goes from descriptor `i`: an unreadable one is tried again. -/
def followLink (i : U16) : U16 := if vq.readable ramSize i then (descAt vq ramSize ram i).next else i

/-- A descriptor without NEXT. -/
def LastLink (i : U16) : Prop := vq.readable ramSize i = true ∧ (descAt vq ramSize ram i).hasNext = false

/-- The links lead from `i` to a descriptor without NEXT, before every index has been visited. -/
def LinksEnd (i : U16) : Prop := ∃ n, n < 65536 ∧ LastLink vq ramSize ram ((followLink vq ramSize ram)^[n] i)

/-- The chain at `head` has an end.  An unreadable head leaves the walk with what the stack holds. -/
def ChainEnds (stack : Mem) (head : U16) : Prop :=
  if vq.readable ramSize head then LinksEnd vq ramSize ram head
  else (VringDesc.ofBytes stack).hasNext = false ∨ LinksEnd vq ramSize ram (VringDesc.ofBytes stack).next

end Links

section Conditions

variable [NetHost] (ramSize : U64)

/-- So do the chains of the next `n` entries of the available ring, each as the used elements before it leave memory. -/
def PendingEnd : Nat → VirtioQueue → Mem → Prop
  | 0, _, _ => True
  | n + 1, vq, ram =>
    ChainEnds vq ramSize ram (NetHost.txDesc vq.last_avail) (availHead vq ramSize ram) ∧
      PendingEnd n vq.advance (addUsed vq ramSize ram (availHead vq ramSize ram) 0)

def NotifyReturns (dev : VirtioDev) (ram : Mem) : Prop := ∃ fuel, (virtioNetProcessQueue ramSize fuel dev 1 ram).isSome = true

def PollReturns (dev : VirtioDev) (ram : Mem) : Prop := ∃ fuel, (virtioNetPoll fuel dev ram).isSome = true

end Conditions

/-! ## The chain walk -/

section Walk

variable {vq : VirtioQueue} {ramSize : U64} {ram : Mem}

/-- The walk has come to where its descriptor points. -/
def TxWalk.Follows (w : TxWalk) : Prop :=
  (VringDesc.ofBytes w.desc).hasNext = true ∧ (VringDesc.ofBytes w.desc).next = w.cur

theorem take_cur (w : TxWalk) (d : VringDesc) : (w.take ramSize ram d).cur = w.cur := by
  unfold TxWalk.take
  split <;> rfl

theorem take_desc (w : TxWalk) (d : VringDesc) : (w.take ramSize ram d).desc = w.desc := by
  unfold TxWalk.take
  split <;> rfl

/-- The descriptor a pass reads. -/
def TxWalk.current (vq : VirtioQueue) (ramSize : U64) (ram : Mem) (w : TxWalk) : VringDesc :=
  .ofBytes (readDesc vq ramSize ram w.cur w.desc).1

theorem netTxDesc_snd (w : TxWalk) : (netTxDesc vq ramSize ram w).2 = (w.current vq ramSize ram).hasNext := rfl

theorem netTxDesc_desc (w : TxWalk) : (netTxDesc vq ramSize ram w).1.desc = (readDesc vq ramSize ram w.cur w.desc).1 :=
  take_desc _ _

theorem netTxDesc_cur (w : TxWalk) : (netTxDesc vq ramSize ram w).1.cur =
    if (w.current vq ramSize ram).hasNext then (w.current vq ramSize ram).next else w.cur := by
  show (if (w.current vq ramSize ram).hasNext then (w.current vq ramSize ram).next
    else (({ w with desc := (readDesc vq ramSize ram w.cur w.desc).1 } : TxWalk).take ramSize ram _).cur) = _
  rw [take_cur]

theorem current_readable {w : TxWalk} (h : vq.readable ramSize w.cur = true) :
    w.current vq ramSize ram = descAt vq ramSize ram w.cur := readDesc_readable ram h w.desc

theorem current_unreadable {w : TxWalk} (h : ¬ vq.readable ramSize w.cur = true) :
    w.current vq ramSize ram = .ofBytes w.desc := by
  unfold TxWalk.current
  rw [readDesc_eq, if_neg h]

/-- A pass that goes on has come to where its descriptor points. -/
theorem netTxDesc_follows {w : TxWalk} (h : (netTxDesc vq ramSize ram w).2 = true) :
    (netTxDesc vq ramSize ram w).1.Follows := by
  rw [netTxDesc_snd] at h
  unfold TxWalk.Follows
  rw [netTxDesc_desc, netTxDesc_cur, if_pos h]
  exact ⟨h, rfl⟩

theorem netTxDesc_last {w : TxWalk} (hw : w.Follows) :
    (netTxDesc vq ramSize ram w).2 = false ↔ LastLink vq ramSize ram w.cur := by
  rw [netTxDesc_snd]
  unfold LastLink
  by_cases h : vq.readable ramSize w.cur = true
  · rw [current_readable h]
    exact ⟨fun hn => ⟨h, hn⟩, And.right⟩
  · rw [current_unreadable h, hw.1]
    exact ⟨fun hn => (nomatch hn), fun hn => absurd hn.1 h⟩

theorem netTxDesc_next {w : TxWalk} (hw : w.Follows) (h : (netTxDesc vq ramSize ram w).2 = true) :
    (netTxDesc vq ramSize ram w).1.cur = followLink vq ramSize ram w.cur := by
  rw [netTxDesc_snd] at h
  rw [netTxDesc_cur, if_pos h]
  unfold followLink
  by_cases hr : vq.readable ramSize w.cur = true
  · rw [if_pos hr, current_readable hr]
  · rw [if_neg hr, current_unreadable hr]
    exact hw.2

theorem netTxWalk_mono : ∀ {n m : Nat} {w r : TxWalk}, n ≤ m → netTxWalk vq ramSize ram n w = some r →
    netTxWalk vq ramSize ram m w = some r
  | 0, _, _, _, _, h => nomatch h
  | n + 1, m, w, r, hle, h => by
    obtain ⟨m, rfl⟩ : ∃ k, m = k + 1 := ⟨m - 1, by omega⟩
    unfold netTxWalk at h ⊢
    split
    next hgo =>
      rw [if_pos hgo] at h
      exact netTxWalk_mono (by omega) h
    next hgo =>
      rw [if_neg hgo] at h
      exact h

/-- A walk returns after as many passes as there are links to follow. -/
theorem netTxWalk_of_last : ∀ {n : Nat} {w : TxWalk}, w.Follows → LastLink vq ramSize ram ((followLink vq ramSize ram)^[n] w.cur) →
    (netTxWalk vq ramSize ram (n + 1) w).isSome = true
  | 0, w, hw, hlast => by
    unfold netTxWalk
    rw [if_neg (by rw [(netTxDesc_last hw).2 hlast]; decide)]
    rfl
  | n + 1, w, hw, hlast => by
    unfold netTxWalk
    split
    next hgo => exact netTxWalk_of_last (netTxDesc_follows hgo) (by rw [netTxDesc_next hw hgo]; exact hlast)
    next => rfl

/-- **The walk along the links ends exactly when they reach a descriptor without NEXT.** -/
theorem netTxWalk_follows : ∀ {w : TxWalk}, w.Follows →
    ((∃ n, (netTxWalk vq ramSize ram n w).isSome = true) ↔
      ∃ n, LastLink vq ramSize ram ((followLink vq ramSize ram)^[n] w.cur)) := by
  intro w hw
  constructor
  · rintro ⟨n, hn⟩
    induction n generalizing w with
    | zero => cases hn
    | succ n ih =>
      unfold netTxWalk at hn
      cases hgo : (netTxDesc vq ramSize ram w).2 with
      | false => exact ⟨0, (netTxDesc_last hw).1 hgo⟩
      | true =>
        rw [if_pos hgo] at hn
        obtain ⟨k, hk⟩ := ih (netTxDesc_follows hgo) hn
        rw [netTxDesc_next hw hgo] at hk
        exact ⟨k + 1, hk⟩
  · rintro ⟨n, hn⟩
    exact ⟨n + 1, netTxWalk_of_last hw hn⟩

theorem linksEnd_iff (i : U16) :
    LinksEnd vq ramSize ram i ↔ ∃ n, LastLink vq ramSize ram ((followLink vq ramSize ram)^[n] i) := by
  constructor
  · rintro ⟨n, -, hn⟩
    exact ⟨n, hn⟩
  · exact Orbit.exists_lt BitVec.toFin (fun a b h => BitVec.eq_of_toFin_eq h)

theorem linksEnd_last {i : U16} (h : LastLink vq ramSize ram i) : LinksEnd vq ramSize ram i := ⟨0, by decide, h⟩

theorem linksEnd_next {i : U16} (h : ¬ LastLink vq ramSize ram i) :
    LinksEnd vq ramSize ram i ↔ LinksEnd vq ramSize ram (followLink vq ramSize ram i) := by
  rw [linksEnd_iff, linksEnd_iff]
  constructor
  · rintro ⟨n, hn⟩
    cases n with
    | zero => exact absurd hn h
    | succ n => exact ⟨n, hn⟩
  · rintro ⟨n, hn⟩
    exact ⟨n + 1, hn⟩

theorem netTxWalk_isSome_mono {n m : Nat} {w : TxWalk} (hle : n ≤ m) (h : (netTxWalk vq ramSize ram n w).isSome = true) :
    (netTxWalk vq ramSize ram m w).isSome = true := by
  obtain ⟨r, hr⟩ := Option.isSome_iff_exists.1 h
  rw [netTxWalk_mono hle hr]
  rfl

/-- **A walk that returns does so within one pass more than there are descriptors.** -/
theorem netTxWalk_full {w : TxWalk} {m : Nat} (hm : 65536 < m) (h : ∃ n, (netTxWalk vq ramSize ram n w).isSome = true) :
    (netTxWalk vq ramSize ram m w).isSome = true := by
  obtain ⟨n, hn⟩ := h
  obtain ⟨m, rfl⟩ : ∃ k, m = k + 1 := ⟨m - 1, by omega⟩
  unfold netTxWalk
  split
  next hgo =>
    cases n with
    | zero => cases hn
    | succ n =>
      unfold netTxWalk at hn
      rw [if_pos hgo] at hn
      have hfollows := netTxDesc_follows hgo
      obtain ⟨k, hk, hlast⟩ := (linksEnd_iff _).2 ((netTxWalk_follows hfollows).1 ⟨n, hn⟩)
      exact netTxWalk_isSome_mono (by omega) (netTxWalk_of_last hfollows hlast)
  next => rfl

/-- **The walk of a chain returns exactly when the chain has an end.** -/
theorem netTxWalk_returns (stack pkt : Mem) (head : U16) :
    (∃ n, (netTxWalk vq ramSize ram n (.start vq ramSize ram stack pkt head)).isSome = true) ↔
      ChainEnds vq ramSize ram stack head := by
  have hcur : (TxWalk.start vq ramSize ram stack pkt head).cur = head := rfl
  have hfirst : (∃ n, (netTxWalk vq ramSize ram n (.start vq ramSize ram stack pkt head)).isSome = true) ↔
      ((netTxDesc vq ramSize ram (.start vq ramSize ram stack pkt head)).2 = false ∨
        LinksEnd vq ramSize ram (netTxDesc vq ramSize ram (.start vq ramSize ram stack pkt head)).1.cur) := by
    cases hgo : (netTxDesc vq ramSize ram (.start vq ramSize ram stack pkt head)).2 with
    | false =>
      refine ⟨fun _ => .inl rfl, fun _ => ⟨1, ?_⟩⟩
      unfold netTxWalk
      rw [if_neg (by rw [hgo]; decide)]
      rfl
    | true =>
      rw [linksEnd_iff, ← netTxWalk_follows (netTxDesc_follows hgo)]
      constructor
      · rintro ⟨n, hn⟩
        cases n with
        | zero => cases hn
        | succ n =>
          unfold netTxWalk at hn
          rw [if_pos hgo] at hn
          exact .inr ⟨n, hn⟩
      · rintro (h | ⟨n, hn⟩)
        · cases h
        · refine ⟨n + 1, ?_⟩
          unfold netTxWalk
          rw [if_pos hgo]
          exact hn
  rw [hfirst, netTxDesc_snd, netTxDesc_cur]
  unfold ChainEnds
  by_cases hr : vq.readable ramSize head = true
  · rw [if_pos hr, current_readable (w := .start vq ramSize ram stack pkt head) hr, hcur]
    cases hnext : (descAt vq ramSize ram head).hasNext with
    | false =>
      simp only [true_or, true_iff]
      exact linksEnd_last ⟨hr, hnext⟩
    | true =>
      have hnot : ¬ LastLink vq ramSize ram head := fun h => by
        rw [h.2] at hnext
        cases hnext
      rw [linksEnd_next hnot]
      unfold followLink
      simp [hr]
  · have hdesc : (TxWalk.start vq ramSize ram stack pkt head).desc = stack := by
      show (readDesc vq ramSize ram head stack).1 = stack
      rw [readDesc_eq, if_neg hr]
    rw [if_neg hr, current_unreadable (w := .start vq ramSize ram stack pkt head) hr, hdesc]
    cases (VringDesc.ofBytes stack).hasNext <;> simp

end Walk

/-! ## The transmit loop -/

section Transmit

variable [NetHost] {ramSize : U64}

/-- The walk of a pass. -/
def txWalkOf (ramSize : U64) (fuel : Nat) (s : NetTx) : Option TxWalk :=
  let vq := s.dev.queues 1
  netTxWalk vq ramSize s.ram fuel
    (.start vq ramSize s.ram (NetHost.txDesc vq.last_avail) (NetHost.txPkt vq.last_avail) (availHead vq ramSize s.ram))

theorem netTxPass_isSome (fuel : Nat) (s : NetTx) :
    (netTxPass ramSize fuel s).isSome = (txWalkOf ramSize fuel s).isSome := Option.isSome_map

theorem netTxPass_mono {n m : Nat} {s t : NetTx} (hle : n ≤ m) (h : netTxPass ramSize n s = some t) :
    netTxPass ramSize m s = some t := by
  obtain ⟨w, hw, rfl⟩ := Option.map_eq_some_iff.1 h
  unfold netTxPass
  dsimp only
  rw [netTxWalk_mono hle hw]
  rfl

theorem netTxLoop_mono {avail : U16} : ∀ {n m : Nat} {s t : NetTx}, n ≤ m → netTxLoop ramSize avail n s = some t →
    netTxLoop ramSize avail m s = some t
  | 0, _, _, _, _, h => nomatch h
  | n + 1, m, s, t, hle, h => by
    obtain ⟨m, rfl⟩ : ∃ k, m = k + 1 := ⟨m - 1, by omega⟩
    unfold netTxLoop at h ⊢
    split
    next hend =>
      rw [if_pos hend] at h
      exact h
    next hend =>
      rw [if_neg hend] at h
      obtain ⟨u, hu, ht⟩ := Option.bind_eq_some_iff.1 h
      rw [netTxPass_mono (by omega) hu]
      exact netTxLoop_mono (by omega) ht

/-- **The loop returns exactly when every pending chain has an end.** -/
theorem netTxLoop_returns {avail : U16} : ∀ (n : Nat) (s : NetTx), (avail - (s.dev.queues 1).last_avail).toNat = n →
    ((∃ fuel, (netTxLoop ramSize avail fuel s).isSome = true) ↔ PendingEnd ramSize n (s.dev.queues 1) s.ram)
  | 0, s, hn => by
    have heq : (s.dev.queues 1).last_avail = avail := by bv_omega
    refine ⟨fun _ => trivial, fun _ => ⟨1, ?_⟩⟩
    unfold netTxLoop
    rw [if_pos heq]
    rfl
  | n + 1, s, hn => by
    have hne : (s.dev.queues 1).last_avail ≠ avail := by
      intro heq
      rw [heq, BitVec.sub_self] at hn
      cases hn
    have hrest : ∀ {fuel t}, netTxPass ramSize fuel s = some t →
        ((∃ fuel, (netTxLoop ramSize avail fuel t).isSome = true) ↔ PendingEnd ramSize n (s.dev.queues 1).advance
          (addUsed (s.dev.queues 1) ramSize s.ram (availHead (s.dev.queues 1) ramSize s.ram) 0)) := by
      intro fuel t ht
      obtain ⟨hq, -, hram⟩ := netTxPass_some ht
      rw [netTxLoop_returns n t (by rw [hq]; unfold VirtioQueue.advance; bv_omega), hq, hram]
    unfold PendingEnd
    rw [← netTxWalk_returns _ (NetHost.txPkt (s.dev.queues 1).last_avail)]
    constructor
    · rintro ⟨fuel, hf⟩
      cases fuel with
      | zero => cases hf
      | succ fuel =>
        unfold netTxLoop at hf
        rw [if_neg hne] at hf
        obtain ⟨r, hr⟩ := Option.isSome_iff_exists.1 hf
        obtain ⟨t, ht, hloop⟩ := Option.bind_eq_some_iff.1 hr
        refine ⟨⟨fuel, ?_⟩, (hrest ht).1 ⟨fuel, by rw [hloop]; rfl⟩⟩
        have hwalk : (netTxPass ramSize fuel s).isSome = (txWalkOf ramSize fuel s).isSome := netTxPass_isSome fuel s
        rw [ht] at hwalk
        exact hwalk.symm
    · rintro ⟨⟨k, hk⟩, hpend⟩
      have hsome : (netTxPass ramSize k s).isSome = true := (netTxPass_isSome k s).trans hk
      obtain ⟨t, ht⟩ := Option.isSome_iff_exists.1 hsome
      obtain ⟨j, hj⟩ := (hrest ht).2 hpend
      obtain ⟨r, hr⟩ := Option.isSome_iff_exists.1 hj
      refine ⟨max k j + 1, ?_⟩
      unfold netTxLoop
      rw [if_neg hne, netTxPass_mono (Nat.le_max_left k j) ht]
      show (netTxLoop ramSize avail (max k j) t).isSome = true
      rw [netTxLoop_mono (Nat.le_max_right k j) hr]
      rfl

/-- **So much fuel is enough for a loop that returns.** -/
theorem netTxLoop_full {avail : U16} : ∀ (n m : Nat) (s : NetTx), (avail - (s.dev.queues 1).last_avail).toNat = n →
    n + 65537 < m → (∃ fuel, (netTxLoop ramSize avail fuel s).isSome = true) → (netTxLoop ramSize avail m s).isSome = true
  | 0, m, s, hn, hm, _ => by
    obtain ⟨m, rfl⟩ : ∃ k, m = k + 1 := ⟨m - 1, by omega⟩
    unfold netTxLoop
    rw [if_pos (by bv_omega)]
    rfl
  | n + 1, m, s, hn, hm, ⟨fuel, hf⟩ => by
    have hne : (s.dev.queues 1).last_avail ≠ avail := by
      intro heq
      rw [heq, BitVec.sub_self] at hn
      cases hn
    obtain ⟨m, rfl⟩ : ∃ k, m = k + 1 := ⟨m - 1, by omega⟩
    cases fuel with
    | zero => cases hf
    | succ fuel =>
      unfold netTxLoop at hf
      rw [if_neg hne] at hf
      obtain ⟨r, hr⟩ := Option.isSome_iff_exists.1 hf
      obtain ⟨t, ht, hloop⟩ := Option.bind_eq_some_iff.1 hr
      have hwalk : ∃ k, (txWalkOf ramSize k s).isSome = true := ⟨fuel, (netTxPass_isSome fuel s).symm.trans (by rw [ht]; rfl)⟩
      have hfull : (netTxPass ramSize m s).isSome = true :=
        (netTxPass_isSome m s).trans (netTxWalk_full (by omega) hwalk)
      obtain ⟨u, hu⟩ := Option.isSome_iff_exists.1 hfull
      -- both passes end in what the longer one of their walks finds
      obtain rfl : u = t := Option.some.inj ((netTxPass_mono (Nat.le_max_left m fuel) hu).symm.trans
        (netTxPass_mono (Nat.le_max_right m fuel) ht))
      obtain ⟨hq, -, -⟩ := netTxPass_some ht
      unfold netTxLoop
      rw [if_neg hne, hu]
      refine netTxLoop_full n m u ?_ (by omega) ⟨fuel, by rw [hloop]; rfl⟩
      rw [hq]
      unfold VirtioQueue.advance
      bv_omega

/-- The entries of the available ring that a notify finds pending. -/
def pendingEntries (ramSize : U64) (vq : VirtioQueue) (ram : Mem) : Nat := (availIdx vq ramSize ram - vq.last_avail).toNat

theorem notifyReturns_iff (dev : VirtioDev) (ram : Mem) : NotifyReturns ramSize dev ram ↔
    PendingEnd ramSize (pendingEntries ramSize (dev.queues 1) ram) (dev.queues 1) ram := by
  refine Iff.trans ?_ (netTxLoop_returns _ ⟨dev, ram, []⟩ rfl)
  unfold NotifyReturns virtioNetProcessQueue
  simp only [if_true, Option.isSome_map]

end Transmit

/-! ## The receive loop -/

section Receive

variable [NetHost]

theorem netRxPass_counters (s : NetRx) :
    (netRxPass s).dev.rx_head = s.dev.rx_head ∧ (netRxPass s).dev.rx_tail = s.dev.rx_tail + 1 := by
  unfold netRxPass
  dsimp only
  split <;> exact ⟨rfl, rfl⟩

/-- **The loop returns after as many passes as the ring holds packets, at the latest.** -/
theorem netRxLoop_returns {avail : U16} : ∀ (n : Nat) (s : NetRx), (s.dev.rx_head - s.dev.rx_tail).toNat < n →
    (netRxLoop avail n s).isSome = true
  | n + 1, s, hn => by
    unfold netRxLoop
    split
    next hgo =>
      obtain ⟨hhead, htail⟩ := netRxPass_counters s
      have hne := hgo.1
      refine netRxLoop_returns n (netRxPass s) ?_
      rw [hhead, htail]
      bv_omega
    next => rfl

theorem pollReturns (dev : VirtioDev) (ram : Mem) : PollReturns dev ram := by
  unfold PollReturns virtioNetPoll
  split
  · generalize receive dev NetHost.poll = d
    refine ⟨(d.rx_head - d.rx_tail).toNat + 1, ?_⟩
    unfold netRxDrain
    split
    · rw [Option.isSome_map]
      exact netRxLoop_returns _ _ (Nat.lt_succ_self _)
    · rfl
  · exact ⟨0, rfl⟩

end Receive

/-- **Both loops return exactly when every pending chain has an end**: the receive loop always does. -/
theorem netLoops_return_iff [NetHost] (ramSize : U64) (dev : VirtioDev) (ram : Mem) :
    (dev.queues 0).num ≠ 0 → (dev.queues 1).num ≠ 0 → ((NotifyReturns ramSize dev ram ∧ PollReturns dev ram) ↔
      PendingEnd ramSize (pendingEntries ramSize (dev.queues 1) ram) (dev.queues 1) ram) := by
  intro _ _
  rw [notifyReturns_iff, and_iff_left (pollReturns dev ram)]

/-! ## The device on its hosts -/

/-- What the host holds when the network device is called for the `k`th time. -/
class NetHosts where
  host : Nat → NetHost

/-- Fuel for a loop that returns at all. -/
def netFuel : Nat := 2 ^ 32

/-- **The network device of the source**: a call that does not return is `none`. -/
abbrev NetHosts.device [NetHosts] : NetDevice where
  processQueue k := (@NetHost.device (NetHosts.host k) netFuel).processQueue k
  poll k := (@NetHost.device (NetHosts.host k) netFuel).poll k

section Fuel

variable [NetHost] {ramSize : U64}

theorem virtioNetProcessQueue_full (dev : VirtioDev) (qid : U32) (ram : Mem) :
    (virtioNetProcessQueue ramSize netFuel dev qid ram).isSome = true ↔ (qid = 1 → NotifyReturns ramSize dev ram) := by
  by_cases hq : qid = 1
  · subst hq
    refine ⟨fun h _ => ⟨netFuel, h⟩, fun h => ?_⟩
    obtain ⟨fuel, hf⟩ := h rfl
    unfold virtioNetProcessQueue at hf ⊢
    simp only [if_true, Option.isSome_map] at hf ⊢
    have hpending := (availIdx (dev.queues 1) ramSize ram - (dev.queues 1).last_avail).isLt
    exact netTxLoop_full _ _ ⟨dev, ram, []⟩ rfl (by unfold netFuel; omega) ⟨fuel, hf⟩
  · unfold virtioNetProcessQueue
    rw [if_neg hq]
    exact ⟨fun _ h => absurd h hq, fun _ => rfl⟩

theorem virtioNetPoll_full (dev : VirtioDev) (ram : Mem) : (virtioNetPoll netFuel dev ram).isSome = true := by
  unfold virtioNetPoll
  split
  · generalize receive dev NetHost.poll = d
    unfold netRxDrain
    split
    · rw [Option.isSome_map]
      exact netRxLoop_returns _ _ (d.rx_head - d.rx_tail).isLt
    · rfl
  · rfl

end Fuel

/-- **A call is counted as hung exactly when it does not return.** -/
theorem netCall_hung (dev : VirtioDev) (mem : BlkMem) (call : Nat → Option (VirtioDev × Mem)) :
    (netCall dev mem call).1.net.hung = mem.net.hung ↔ (call mem.net.made).isSome = true := by
  unfold netCall
  cases call mem.net.made with
  | none => simp
  | some r => simp

section Hosts

variable [NetHosts]

local instance hostsNet : NetDevice := NetHosts.device

/-- **A notify returns exactly when every pending chain of its queue has an end.** -/
theorem netNotify_hung (dev : VirtioDev) (ramSize : U64) (qid : U32) (mem : BlkMem) :
    (netNotify dev ramSize qid mem).1.net.hung = mem.net.hung ↔
      (qid = 1 → @PendingEnd (NetHosts.host mem.net.made) ramSize (pendingEntries ramSize (dev.queues 1) mem.ram)
        (dev.queues 1) mem.ram) := by
  rw [← @notifyReturns_iff (NetHosts.host mem.net.made), ← @virtioNetProcessQueue_full (NetHosts.host mem.net.made)]
  unfold netNotify
  rw [netCall_hung]
  exact iff_of_eq (congrArg (· = true) Option.isSome_map)

/-- **A poll returns.** -/
theorem netPoll_hung (dev : VirtioDev) (mem : BlkMem) : (netPoll dev mem).1.net.hung = mem.net.hung :=
  (netCall_hung dev mem _).2 (@virtioNetPoll_full (NetHosts.host mem.net.made) dev mem.ram)

end Hosts

section Instances

local instance cycleHost : NetHost := NetHost.quiet 0

/-- A queue of one descriptor, which links to itself. -/
theorem not_notifyReturns_cycle :
    ¬ ∀ (dev : VirtioDev) (ram : Mem), (dev.queues 1).num ≠ 0 → NotifyReturns 0x10000 dev ram := by
  intro hall
  have h := hall (oneDescNet 1) (oneDescRam (ramBase + 0x3000) 16 1 0) (by decide)
  have hpend : pendingEntries 0x10000 ((oneDescNet 1).queues 1) (oneDescRam (ramBase + 0x3000) 16 1 0) = 1 := by
    decide +kernel
  have hhead : availHead (oneDescQueue 1) 0x10000 (oneDescRam (ramBase + 0x3000) 16 1 0) = 0 := by decide +kernel
  have hread : (oneDescQueue 1).readable 0x10000 0 = true := by decide
  have hloop : followLink (oneDescQueue 1) 0x10000 (oneDescRam (ramBase + 0x3000) 16 1 0) 0 = 0 := by decide +kernel
  have hnext : (descAt (oneDescQueue 1) 0x10000 (oneDescRam (ramBase + 0x3000) 16 1 0) 0).hasNext = true := by
    decide +kernel
  rw [notifyReturns_iff, hpend] at h
  have hends : ChainEnds (oneDescQueue 1) 0x10000 (oneDescRam (ramBase + 0x3000) 16 1 0) (NetHost.txDesc 0)
      (availHead (oneDescQueue 1) 0x10000 (oneDescRam (ramBase + 0x3000) 16 1 0)) := h.1
  unfold ChainEnds at hends
  rw [hhead, if_pos hread] at hends
  obtain ⟨n, -, -, hlast⟩ := hends
  rw [Function.iterate_fixed hloop, hnext] at hlast
  cases hlast

/-- The same descriptor without the link. -/
theorem netLoops_return_one : NotifyReturns 0x10000 (oneDescNet 1) (oneDescRam (ramBase + 0x3000) 16 0 0) ∧
    PollReturns (oneDescNet 1) (oneDescRam (ramBase + 0x3000) 16 0 0) := by
  refine (netLoops_return_iff 0x10000 (oneDescNet 1) _ (by decide) (by decide)).2 ?_
  have hpend : pendingEntries 0x10000 ((oneDescNet 1).queues 1) (oneDescRam (ramBase + 0x3000) 16 0 0) = 1 := by
    decide +kernel
  rw [hpend]
  refine ⟨?_, trivial⟩
  have hhead : availHead ((oneDescNet 1).queues 1) 0x10000 (oneDescRam (ramBase + 0x3000) 16 0 0) = 0 := by decide +kernel
  unfold ChainEnds
  rw [hhead, if_pos (by decide)]
  exact linksEnd_last ⟨by decide, by decide +kernel⟩

end Instances

end PgLinux
