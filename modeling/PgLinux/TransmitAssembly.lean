import PgLinux.Dma
import PgLinux.NetTermination
/-!
# TransmitAssembly — the frame that the transmit loop puts together (`virtio_net_process_queue`)

`pkt_len` runs on in 32 bits over the lengths the guest names, whether their bytes could be read or not.  The packet
buffer is a local: what no copy has reached is what the stack held.
-/
namespace PgLinux

/-! ## Passes -/

/-- A pass of the walk: how far the packet is filled, the index read, and the descriptor found there. -/
structure TxSeg where
  start : U32
  idx : U16
  desc : VringDesc

/-- The sum of the lengths, in 32 bits, is within the buffer. -/
def TxSeg.Fits (s : TxSeg) : Prop := s.start + s.desc.len ≤ 65536

instance (s : TxSeg) : Decidable s.Fits := inferInstanceAs (Decidable (_ ≤ _))

/-- How far the packet is filled behind the pass. -/
def TxSeg.filled (s : TxSeg) : U32 := if s.Fits then s.start + s.desc.len else s.start

/-- The guest address of the byte for position `b`. -/
def TxSeg.source (s : TxSeg) (b : U64) : U64 := s.desc.addr + (b - s.start.setWidth 64)

/-- The guest addresses that a descriptor designates. -/
def VringDesc.addresses (d : VringDesc) : List U64 := (List.range d.len.toNat).map fun i => d.addr + BitVec.ofNat 64 i

/-- The frame of the guest bytes at `addrs`; none where there are none. -/
def sentFrame (ram : Mem) (addrs : List U64) : Option Frame :=
  if addrs = [] then none else some (addrs.map fun a => ram (a - ramBase))

section Chain

variable (vq : VirtioQueue) (ramSize : U64) (ram : Mem)

/-- The pass reads bytes into the packet. -/
def TxSeg.Copies (s : TxSeg) : Prop := s.Fits ∧ guestInBounds ramSize s.desc.addr (s.desc.len.setWidth 64) = true

instance (s : TxSeg) : Decidable (s.Copies ramSize) := inferInstanceAs (Decidable (_ ∧ _))

/-- One of them to position `b`. -/
def TxSeg.Writes (s : TxSeg) (b : U64) : Prop := s.Copies ramSize ∧ (b - s.start.setWidth 64).toNat < s.desc.len.toNat

instance (s : TxSeg) (b : U64) : Decidable (s.Writes ramSize b) := inferInstanceAs (Decidable (_ ∧ _))

/-- The pass after one whose descriptor has NEXT: an unreadable entry leaves the descriptor as it is. -/
def TxSeg.next (s : TxSeg) : TxSeg :=
  ⟨s.filled, s.desc.next, if vq.readable ramSize s.desc.next then descAt vq ramSize ram s.desc.next else s.desc⟩

/-- The first `n` passes. -/
def txPasses : Nat → TxSeg → List TxSeg
  | 0, _ => []
  | n + 1, s => s :: if s.desc.hasNext then txPasses n (s.next vq ramSize ram) else []

/-- How far the packet is filled at the end of the chain, if that is within `n` passes. -/
def txLength : Nat → TxSeg → Option U32
  | 0, _ => none
  | n + 1, s => if s.desc.hasNext then txLength n (s.next vq ramSize ram) else some s.filled

/-- The first pass over the chain at a readable `head`. -/
def headSeg (head : U16) : TxSeg := ⟨0, head, descAt vq ramSize ram head⟩

/-- The walk before each of its first `n` passes. -/
def txStates : Nat → TxWalk → List TxWalk
  | 0, _ => []
  | n + 1, w =>
    w :: if (netTxDesc vq ramSize ram w).2 then txStates n (netTxDesc vq ramSize ram w).1 else []

/-- The pass that the walk is about to make. -/
def TxWalk.seg (w : TxWalk) : TxSeg := ⟨w.pkt_len, w.cur, w.current vq ramSize ram⟩

/-- A buffer of the chain, in guest RAM, has the byte at `a`. -/
def Designated (head : U16) (a : U64) : Prop :=
  ∃ n, ∃ s ∈ txPasses vq ramSize ram n (headSeg vq ramSize ram head),
    InGuestRam ramSize s.desc.addr (s.desc.len.setWidth 64) ∧ a ∈ s.desc.addresses

/-! ## The law -/

/-- What a pass reads is in guest RAM, what it writes in the packet, and the packet gets no longer than its buffer. -/
structure PassSafe (w : TxWalk) : Prop where
  entry : vq.readable ramSize w.cur = true → InGuestRam ramSize (vq.desc_addr + w.cur.setWidth 64 * 16) 16
  bytes : (w.seg vq ramSize ram).Copies ramSize →
    InGuestRam ramSize (w.current vq ramSize ram).addr ((w.current vq ramSize ram).len.setWidth 64) ∧
      w.pkt_len.toNat + (w.current vq ramSize ram).len.toNat ≤ 65536
  length : (netTxDesc vq ramSize ram w).1.pkt_len ≤ 65536

/-- A chain that can be read and fits. -/
structure Whole (passes : List TxSeg) : Prop where
  entries : ∀ s ∈ passes, DmaReaches ramSize (vq.desc_addr + s.idx.setWidth 64 * 16) 16
  buffers : ∀ s ∈ passes, DmaReaches ramSize s.desc.addr (s.desc.len.setWidth 64)
  length : (passes.map fun s => s.desc.len.toNat).sum ≤ 65536

/-- Whatever the stack holds: every pass is safe, the frame is one of bytes that the chain designates, and that of a
chain which can be read and fits is all of them but the header. -/
structure TxAssembles (head : U16) : Prop where
  safe : ∀ desc pkt n, ∀ w ∈ txStates vq ramSize ram n (.start vq ramSize ram desc pkt head), PassSafe vq ramSize ram w
  guest : ∃ addrs, (∀ a ∈ addrs, Designated vq ramSize ram head a) ∧ ∀ desc pkt n r,
    netTxWalk vq ramSize ram n (.start vq ramSize ram desc pkt head) = some r → r.frame = sentFrame ram addrs
  whole : ∀ desc pkt n r, netTxWalk vq ramSize ram n (.start vq ramSize ram desc pkt head) = some r →
    Whole vq ramSize (txPasses vq ramSize ram n (headSeg vq ramSize ram head)) →
      r.frame = sentFrame ram (((txPasses vq ramSize ram n (headSeg vq ramSize ram head)).flatMap
        fun s => s.desc.addresses).drop 10)

/-- The head can be read, no transfer wraps, neither its end in 64 bits nor the length in 32, and where the chain ends,
each byte behind the header has been read. -/
structure ChainFilled (head : U16) : Prop where
  readable : vq.readable ramSize head = true
  entries : ∀ n, ∀ s ∈ txPasses vq ramSize ram n (headSeg vq ramSize ram head),
    ¬ EndWrapsIntoRam ramSize (vq.desc_addr + s.idx.setWidth 64 * 16) 16
  copies : ∀ n, ∀ s ∈ txPasses vq ramSize ram n (headSeg vq ramSize ram head), s.Copies ramSize →
    ¬ EndWrapsIntoRam ramSize s.desc.addr (s.desc.len.setWidth 64) ∧ s.start.toNat + s.desc.len.toNat < 2 ^ 32
  filled : ∀ n len, txLength vq ramSize ram n (headSeg vq ramSize ram head) = some len → ∀ j, 10 ≤ j → j < len.toNat →
    ∃ s ∈ txPasses vq ramSize ram n (headSeg vq ramSize ram head), s.Writes ramSize (BitVec.ofNat 64 j)

end Chain

/-! ## The walk by its passes -/

section Walk

variable {vq : VirtioQueue} {ramSize : U64} {ram : Mem}

theorem netTxDesc_len (w : TxWalk) : (netTxDesc vq ramSize ram w).1.pkt_len = (w.seg vq ramSize ram).filled := by
  show (TxWalk.take ramSize ram { w with desc := (readDesc vq ramSize ram w.cur w.desc).1 }
    (w.current vq ramSize ram)).pkt_len = _
  unfold TxWalk.take TxSeg.filled
  exact apply_ite TxWalk.pkt_len _ _ _

/-- **A pass lays its bytes over the packet.** -/
theorem netTxDesc_pkt (w : TxWalk) (b : U64) : (netTxDesc vq ramSize ram w).1.pkt b =
    if (w.seg vq ramSize ram).Writes ramSize b then ram ((w.seg vq ramSize ram).source b - ramBase) else w.pkt b := by
  have hlen : ((w.current vq ramSize ram).len.setWidth 64).toNat = (w.current vq ramSize ram).len.toNat :=
    BitVec.toNat_setWidth_of_le (by decide)
  have hsource : (w.seg vq ramSize ram).source b - ramBase =
      (w.current vq ramSize ram).addr - ramBase + (b - w.pkt_len.setWidth 64) := by
    show (w.current vq ramSize ram).addr + (b - w.pkt_len.setWidth 64) - ramBase = _
    generalize b - w.pkt_len.setWidth 64 = i
    bv_omega
  show (TxWalk.take ramSize ram { w with desc := (readDesc vq ramSize ram w.cur w.desc).1 }
    (w.current vq ramSize ram)).pkt b = _
  rw [hsource]
  unfold TxWalk.take
  by_cases hfits : w.pkt_len + (w.current vq ramSize ram).len ≤ 65536
  · rw [if_pos hfits]
    show (guestRead ram ramSize (w.current vq ramSize ram).addr w.pkt (w.pkt_len.setWidth 64)
      ((w.current vq ramSize ram).len.setWidth 64)).1 b = _
    unfold guestRead
    by_cases hin : guestInBounds ramSize (w.current vq ramSize ram).addr ((w.current vq ramSize ram).len.setWidth 64) = true
    · rw [if_pos hin]
      by_cases hb : (b - w.pkt_len.setWidth 64).toNat < (w.current vq ramSize ram).len.toNat
      · rw [if_pos ⟨⟨hfits, hin⟩, hb⟩]
        exact Mem.copy_of_lt _ _ _ _ _ _ (hlen ▸ hb)
      · rw [if_neg fun h => hb h.2]
        exact Mem.copy_of_le _ _ _ _ _ _ (by omega)
    · rw [if_neg hin, if_neg fun h => hin h.1.2]
  · rw [if_neg hfits, if_neg fun h => hfits h.1.1]

/-- A safe pass leaves what lies behind the buffer. -/
theorem PassSafe.outside {w : TxWalk} (h : PassSafe vq ramSize ram w) {b : U64} (hb : 65536 ≤ b.toNat) :
    (netTxDesc vq ramSize ram w).1.pkt b = w.pkt b := by
  rw [netTxDesc_pkt, if_neg]
  rintro ⟨hc, hlt⟩
  have hend : w.pkt_len.toNat + (w.current vq ramSize ram).len.toNat ≤ 65536 := (h.bytes hc).2
  have hoff : (b - w.pkt_len.setWidth 64).toNat < (w.current vq ramSize ram).len.toNat := hlt
  rw [BitVec.toNat_sub, BitVec.toNat_setWidth] at hoff
  omega

/-- **A walk that goes on is about to make the next pass.** -/
theorem netTxDesc_seg {w : TxWalk} (h : (netTxDesc vq ramSize ram w).2 = true) :
    (netTxDesc vq ramSize ram w).1.seg vq ramSize ram = (w.seg vq ramSize ram).next vq ramSize ram := by
  have hcur : (netTxDesc vq ramSize ram w).1.cur =
      if (w.current vq ramSize ram).hasNext then (w.current vq ramSize ram).next else w.cur := netTxDesc_cur w
  rw [netTxDesc_snd] at h
  rw [if_pos h] at hcur
  unfold TxWalk.seg TxSeg.next
  rw [netTxDesc_len, hcur]
  congr 1
  by_cases hr : vq.readable ramSize (w.current vq ramSize ram).next = true
  · rw [if_pos hr, current_readable (by rw [hcur]; exact hr), hcur]
  · rw [if_neg hr, current_unreadable (by rw [hcur]; exact hr), netTxDesc_desc]
    rfl

theorem txStates_seg : ∀ (n : Nat) (w : TxWalk),
    (txStates vq ramSize ram n w).map (TxWalk.seg vq ramSize ram) = txPasses vq ramSize ram n (w.seg vq ramSize ram)
  | 0, _ => rfl
  | n + 1, w => by
    unfold txStates txPasses
    rw [List.map_cons]
    congr 1
    by_cases h : (netTxDesc vq ramSize ram w).2 = true
    · have hnext : (w.seg vq ramSize ram).desc.hasNext = true := h
      rw [if_pos h, if_pos hnext, txStates_seg n, netTxDesc_seg h]
    · have hnext : ¬ (w.seg vq ramSize ram).desc.hasNext = true := h
      rw [if_neg h, if_neg hnext]
      rfl

theorem netTxWalk_length : ∀ (n : Nat) (w : TxWalk),
    (netTxWalk vq ramSize ram n w).map TxWalk.pkt_len = txLength vq ramSize ram n (w.seg vq ramSize ram)
  | 0, _ => rfl
  | n + 1, w => by
    unfold netTxWalk txLength
    by_cases h : (netTxDesc vq ramSize ram w).2 = true
    · have hnext : (w.seg vq ramSize ram).desc.hasNext = true := h
      rw [if_pos h, if_pos hnext, netTxWalk_length n, netTxDesc_seg h]
    · have hnext : ¬ (w.seg vq ramSize ram).desc.hasNext = true := h
      rw [if_neg h, if_neg hnext, Option.map_some, netTxDesc_len]

/-- The packet byte at `b` behind the passes. -/
def laidOver (ramSize : U64) (ram : Mem) (b : U64) (passes : List TxSeg) (v : U8) : U8 :=
  passes.foldl (fun v s => if s.Writes ramSize b then ram (s.source b - ramBase) else v) v

theorem netTxWalk_pkt (b : U64) : ∀ {n : Nat} {w r : TxWalk}, netTxWalk vq ramSize ram n w = some r →
    r.pkt b = laidOver ramSize ram b (txPasses vq ramSize ram n (w.seg vq ramSize ram)) (w.pkt b)
  | 0, _, _, h => nomatch h
  | n + 1, w, r, h => by
    unfold netTxWalk at h
    unfold txPasses laidOver
    rw [List.foldl_cons, ← netTxDesc_pkt]
    by_cases hgo : (netTxDesc vq ramSize ram w).2 = true
    · have hnext : (w.seg vq ramSize ram).desc.hasNext = true := hgo
      rw [if_pos hgo] at h
      rw [if_pos hnext, ← netTxDesc_seg hgo]
      exact netTxWalk_pkt b h
    · have hnext : ¬ (w.seg vq ramSize ram).desc.hasNext = true := hgo
      rw [if_neg hgo] at h
      obtain rfl := Option.some.inj h
      rw [if_neg hnext]
      rfl

theorem start_seg {head : U16} (h : vq.readable ramSize head = true) (desc pkt : Mem) :
    (TxWalk.start vq ramSize ram desc pkt head).seg vq ramSize ram = headSeg vq ramSize ram head := by
  have hdesc : (TxWalk.start vq ramSize ram desc pkt head).current vq ramSize ram = descAt vq ramSize ram head :=
    current_readable h
  unfold TxWalk.seg headSeg
  rw [hdesc]
  rfl

/-- Two walks of one chain that come to its end come to the same. -/
theorem netTxWalk_unique {n m : Nat} {w r r' : TxWalk} (h : netTxWalk vq ramSize ram n w = some r)
    (h' : netTxWalk vq ramSize ram m w = some r') : r = r' := by
  have hmax := netTxWalk_mono (Nat.le_max_left n m) h
  rw [netTxWalk_mono (Nat.le_max_right n m) h'] at hmax
  exact (Option.some.inj hmax).symm

/-- Where the chain ends decides, not the stack, whether the walk does. -/
theorem netTxWalk_of_length {n : Nat} {len : U32} {w : TxWalk}
    (h : txLength vq ramSize ram n (w.seg vq ramSize ram) = some len) :
    ∃ r, netTxWalk vq ramSize ram n w = some r ∧ r.pkt_len = len := by
  rw [← netTxWalk_length] at h
  exact Option.map_eq_some_iff.1 h

/-! ## Bytes -/

section Bytes

variable {b : U64} {passes : List TxSeg}

theorem laidOver_of_none (h : ∀ s ∈ passes, ¬ s.Writes ramSize b) (v : U8) : laidOver ramSize ram b passes v = v := by
  induction passes with
  | nil => rfl
  | cons s passes ih =>
    unfold laidOver
    rw [List.foldl_cons, if_neg (h s List.mem_cons_self)]
    exact ih fun t ht => h t (List.mem_cons_of_mem s ht)

/-- **The last pass to write a byte decides it.** -/
theorem laidOver_of_some (h : ∃ s ∈ passes, s.Writes ramSize b) :
    ∃ s ∈ passes, s.Writes ramSize b ∧ ∀ v, laidOver ramSize ram b passes v = ram (s.source b - ramBase) := by
  induction passes with
  | nil =>
    obtain ⟨s, hs, -⟩ := h
    cases hs
  | cons s passes ih =>
    by_cases hlater : ∃ t ∈ passes, t.Writes ramSize b
    · obtain ⟨t, ht, hw, hv⟩ := ih hlater
      exact ⟨t, List.mem_cons_of_mem s ht, hw, fun v => hv _⟩
    · have hnone : ∀ t ∈ passes, ¬ t.Writes ramSize b := fun t ht hw => hlater ⟨t, ht, hw⟩
      obtain ⟨t, ht, hw⟩ := h
      rcases List.mem_cons.1 ht with rfl | ht
      · refine ⟨t, List.mem_cons_self, hw, fun v => ?_⟩
        unfold laidOver
        rw [List.foldl_cons, if_pos hw]
        exact laidOver_of_none hnone _
      · exact absurd hw (hnone t ht)

end Bytes

theorem source_mem {s : TxSeg} {b : U64} (h : s.Writes ramSize b) : s.source b ∈ s.desc.addresses := by
  refine List.mem_map.2 ⟨(b - s.start.setWidth 64).toNat, List.mem_range.2 h.2, ?_⟩
  rw [BitVec.ofNat_toNat, BitVec.setWidth_eq]
  rfl

/-- The frame of a packet whose bytes behind the header are those at the addresses `addr`. -/
theorem frame_eq {w : TxWalk} {addr : Nat → U64}
    (h : ∀ j, 10 ≤ j → j < w.pkt_len.toNat → w.pkt (BitVec.ofNat 64 j) = ram (addr j - ramBase)) :
    w.frame = sentFrame ram ((List.range (w.pkt_len.toNat - 10)).map fun i => addr (10 + i)) := by
  unfold TxWalk.frame sentFrame
  by_cases hlen : 10 < w.pkt_len
  · have hnat : 10 < w.pkt_len.toNat := hlen
    rw [if_pos hlen, if_neg (by simp; omega), List.map_map]
    refine congrArg some (List.map_congr_left fun i hi => ?_)
    have := List.mem_range.1 hi
    exact h (10 + i) (by omega) (by omega)
  · have hnat : ¬ 10 < w.pkt_len.toNat := hlen
    rw [if_neg hlen, if_pos (by simp; omega)]

/-! ## A chain that is filled -/

theorem filled_le {s : TxSeg} (h : s.start ≤ 65536) : s.filled ≤ 65536 := by
  unfold TxSeg.filled
  split
  next hfits => exact hfits
  next => exact h

theorem txPasses_start : ∀ {n : Nat} {s t : TxSeg}, s.start ≤ 65536 → t ∈ txPasses vq ramSize ram n s → t.start ≤ 65536
  | 0, _, _, _, h => nomatch h
  | n + 1, s, t, hs, h => by
    unfold txPasses at h
    rcases List.mem_cons.1 h with rfl | h
    · exact hs
    · split at h
      · exact txPasses_start (n := n) (filled_le hs) h
      · cases h

theorem inGuestRam_of_not_wraps {addr len : U64} (hin : guestInBounds ramSize addr len = true)
    (h : ¬ EndWrapsIntoRam ramSize addr len) : InGuestRam ramSize addr len := by
  by_contra hout
  exact h ((guestInBounds_outside_iff ramSize addr len).1 ⟨hin, hout⟩)

theorem not_wraps_of_inGuestRam {addr len : U64} (h : InGuestRam ramSize addr len) : ¬ EndWrapsIntoRam ramSize addr len :=
  fun hw => ((guestInBounds_outside_iff ramSize addr len).2 hw).2 h

section Filled

variable {head : U16} (h : ChainFilled vq ramSize ram head)

include h

theorem ChainFilled.safe (desc pkt : Mem) (n : Nat) {w : TxWalk}
    (hw : w ∈ txStates vq ramSize ram n (.start vq ramSize ram desc pkt head)) : PassSafe vq ramSize ram w := by
  have hseg : w.seg vq ramSize ram ∈ txPasses vq ramSize ram n (headSeg vq ramSize ram head) := by
    rw [← start_seg h.readable desc pkt, ← txStates_seg]
    exact List.mem_map_of_mem hw
  refine { entry := ?_, bytes := ?_, length := ?_ }
  · intro hr
    have hin : guestInBounds ramSize (vq.desc_addr + w.cur.setWidth 64 * 16) 16 = true := hr
    have hwraps := h.entries n (w.seg vq ramSize ram) hseg
    exact inGuestRam_of_not_wraps hin hwraps
  · intro hc
    obtain ⟨hend, hsum⟩ := h.copies n _ hseg hc
    refine ⟨inGuestRam_of_not_wraps hc.2 hend, ?_⟩
    have hfits : ((w.seg vq ramSize ram).start + (w.seg vq ramSize ram).desc.len).toNat ≤ 65536 := hc.1
    rw [BitVec.toNat_add, Nat.mod_eq_of_lt hsum] at hfits
    exact hfits
  · rw [netTxDesc_len]
    have hzero : (headSeg vq ramSize ram head).start ≤ 65536 := show (0 : U32) ≤ 65536 by decide
    exact filled_le (txPasses_start hzero hseg)

theorem ChainFilled.designated {n : Nat} {s : TxSeg} (hs : s ∈ txPasses vq ramSize ram n (headSeg vq ramSize ram head))
    {b : U64} (hw : s.Writes ramSize b) : Designated vq ramSize ram head (s.source b) :=
  ⟨n, s, hs, inGuestRam_of_not_wraps hw.1.2 (h.copies n s hs hw.1).1, source_mem hw⟩

theorem ChainFilled.guest : ∃ addrs, (∀ a ∈ addrs, Designated vq ramSize ram head a) ∧ ∀ desc pkt n r,
    netTxWalk vq ramSize ram n (.start vq ramSize ram desc pkt head) = some r → r.frame = sentFrame ram addrs := by
  by_cases hends : ∃ m len, txLength vq ramSize ram m (headSeg vq ramSize ram head) = some len
  · obtain ⟨m, len, hlen⟩ := hends
    have hfrom : ∀ j, ∃ a, 10 ≤ j → j < len.toNat → Designated vq ramSize ram head a ∧ ∀ v,
        laidOver ramSize ram (BitVec.ofNat 64 j) (txPasses vq ramSize ram m (headSeg vq ramSize ram head)) v =
          ram (a - ramBase) := by
      intro j
      by_cases hj : 10 ≤ j ∧ j < len.toNat
      · obtain ⟨s, hs, hw, hv⟩ := @laidOver_of_some ramSize ram _ _ (h.filled m len hlen j hj.1 hj.2)
        exact ⟨s.source (BitVec.ofNat 64 j), fun _ _ => ⟨h.designated hs hw, hv⟩⟩
      · exact ⟨0, fun h10 hlt => absurd ⟨h10, hlt⟩ hj⟩
    choose addr haddr using hfrom
    refine ⟨(List.range (len.toNat - 10)).map fun i => addr (10 + i), ?_, ?_⟩
    · intro a ha
      obtain ⟨i, hi, rfl⟩ := List.mem_map.1 ha
      have := List.mem_range.1 hi
      exact (haddr (10 + i) (by omega) (by omega)).1
    · intro desc pkt n r hr
      have hstart : (TxWalk.start vq ramSize ram desc pkt head).seg vq ramSize ram = headSeg vq ramSize ram head :=
        start_seg h.readable desc pkt
      obtain ⟨r', hr', rfl⟩ := netTxWalk_of_length (hstart ▸ hlen)
      obtain rfl := netTxWalk_unique hr hr'
      refine frame_eq fun j h10 hlt => ?_
      rw [netTxWalk_pkt _ hr', hstart]
      exact (haddr j h10 hlt).2 _
  · refine ⟨[], fun a ha => absurd ha List.not_mem_nil, fun desc pkt n r hr => ?_⟩
    have hlen := @netTxWalk_length vq ramSize ram n (.start vq ramSize ram desc pkt head)
    rw [hr, start_seg h.readable] at hlen
    exact absurd ⟨n, r.pkt_len, hlen.symm⟩ hends

end Filled

/-! ## A chain that is whole -/

/-- How long the packet of a chain is that fits. -/
def totalLength (passes : List TxSeg) : Nat := (passes.map fun s => s.desc.len.toNat).sum

theorem totalLength_cons (s : TxSeg) (passes : List TxSeg) :
    totalLength (s :: passes) = s.desc.len.toNat + totalLength passes := List.sum_cons

theorem addresses_length (d : VringDesc) : d.addresses.length = d.len.toNat := by
  rw [VringDesc.addresses, List.length_map, List.length_range]

theorem flatMap_length (passes : List TxSeg) : (passes.flatMap fun s => s.desc.addresses).length = totalLength passes := by
  rw [List.length_flatMap]
  unfold totalLength
  exact congrArg List.sum (List.map_congr_left fun s _ => addresses_length s.desc)

/-- The buffers can be read, and what they hold fits behind `start`. -/
structure FitsFrom (ramSize : U64) (start : Nat) (passes : List TxSeg) : Prop where
  buffers : ∀ s ∈ passes, DmaReaches ramSize s.desc.addr (s.desc.len.setWidth 64)
  length : start + totalLength passes ≤ 65536

section Fits

variable {s : TxSeg}

theorem FitsFrom.copies {passes : List TxSeg} (h : FitsFrom ramSize s.start.toNat (s :: passes)) : s.Copies ramSize := by
  have hlen := h.length
  rw [totalLength_cons] at hlen
  refine ⟨?_, (h.buffers s List.mem_cons_self).1⟩
  show (s.start + s.desc.len).toNat ≤ 65536
  rw [BitVec.toNat_add]
  omega

theorem FitsFrom.filled {passes : List TxSeg} (h : FitsFrom ramSize s.start.toNat (s :: passes)) :
    s.filled.toNat = s.start.toNat + s.desc.len.toNat := by
  have hlen := h.length
  rw [totalLength_cons] at hlen
  unfold TxSeg.filled
  rw [if_pos h.copies.1, BitVec.toNat_add]
  omega

theorem FitsFrom.tail {passes : List TxSeg} (h : FitsFrom ramSize s.start.toNat (s :: passes)) :
    FitsFrom ramSize (s.next vq ramSize ram).start.toNat passes where
  buffers t ht := h.buffers t (List.mem_cons_of_mem s ht)
  length := by
    have hlen := h.length
    have hfilled : (s.next vq ramSize ram).start.toNat = s.start.toNat + s.desc.len.toNat := h.filled
    rw [totalLength_cons] at hlen
    omega

/-- Where a position is, counted from the start of the pass. -/
theorem offset_eq {j : Nat} (hle : s.start.toNat ≤ j) :
    BitVec.ofNat 64 j - s.start.setWidth 64 = BitVec.ofNat 64 (j - s.start.toNat) := by
  have hstart : s.start.setWidth 64 = BitVec.ofNat 64 s.start.toNat := BitVec.eq_of_toNat_eq (by simp)
  rw [hstart, ← BitVec.ofNat_sub_ofNat_of_le _ _ (by omega) hle]

theorem not_writes_below {j : Nat} (hj : j < s.start.toNat) (hstart : s.start.toNat ≤ 65536) :
    ¬ s.Writes ramSize (BitVec.ofNat 64 j) := by
  rintro ⟨-, hlt⟩
  have hlen := s.desc.len.isLt
  rw [BitVec.toNat_sub, BitVec.toNat_ofNat, BitVec.toNat_setWidth] at hlt
  omega

end Fits

/-- A pass writes nothing before its start, nor do those that follow. -/
theorem whole_below {j : Nat} : ∀ {n : Nat} {s : TxSeg}, FitsFrom ramSize s.start.toNat (txPasses vq ramSize ram n s) →
    j < s.start.toNat → ∀ t ∈ txPasses vq ramSize ram n s, ¬ t.Writes ramSize (BitVec.ofNat 64 j)
  | 0, _, _, _, _, ht => nomatch ht
  | n + 1, s, h, hj, t, ht => by
    have hbound := h.length
    unfold txPasses at h ht
    rcases List.mem_cons.1 ht with rfl | ht
    · exact not_writes_below hj (by omega)
    · by_cases hnext : s.desc.hasNext = true
      · rw [if_pos hnext] at h ht
        have hfilled : (s.next vq ramSize ram).start.toNat = s.start.toNat + s.desc.len.toNat := h.filled
        exact whole_below h.tail (by omega) t ht
      · rw [if_neg hnext] at ht
        cases ht

theorem addresses_getElem? {d : VringDesc} {i : Nat} {a : U64} (h : d.addresses[i]? = some a) :
    i < d.len.toNat ∧ a = d.addr + BitVec.ofNat 64 i := by
  obtain ⟨hi, rfl⟩ := List.getElem?_eq_some_iff.1 h
  rw [addresses_length] at hi
  refine ⟨hi, ?_⟩
  simp only [VringDesc.addresses, List.getElem_map, List.getElem_range]

/-- The bytes of a pass stay where nothing behind it writes. -/
theorem FitsFrom.own {s : TxSeg} {passes : List TxSeg} (h : FitsFrom ramSize s.start.toNat (s :: passes)) {i : Nat}
    (hi : i < s.desc.len.toNat) (hlater : ∀ t ∈ passes, ¬ t.Writes ramSize (BitVec.ofNat 64 (s.start.toNat + i))) (v : U8) :
    laidOver ramSize ram (BitVec.ofNat 64 (s.start.toNat + i)) (s :: passes) v =
      ram (s.desc.addr + BitVec.ofNat 64 i - ramBase) := by
  have hlen := h.length
  rw [totalLength_cons] at hlen
  have hoff := offset_eq (s := s) (j := s.start.toNat + i) (by omega)
  rw [Nat.add_sub_cancel_left] at hoff
  have hwrites : s.Writes ramSize (BitVec.ofNat 64 (s.start.toNat + i)) := by
    refine ⟨h.copies, ?_⟩
    rw [hoff, BitVec.toNat_ofNat]
    omega
  unfold laidOver
  rw [List.foldl_cons, if_pos hwrites]
  refine (laidOver_of_none hlater _).trans ?_
  unfold TxSeg.source
  rw [hoff]

theorem FitsFrom.other {s : TxSeg} {passes : List TxSeg} (h : FitsFrom ramSize s.start.toNat (s :: passes)) {i : Nat}
    (hi : s.desc.len.toNat ≤ i) (hbound : s.start.toNat + i < 65536) (v : U8) :
    laidOver ramSize ram (BitVec.ofNat 64 (s.start.toNat + i)) (s :: passes) v =
      laidOver ramSize ram (BitVec.ofNat 64 (s.filled.toNat + (i - s.desc.len.toNat))) passes v := by
  have hoff := offset_eq (s := s) (j := s.start.toNat + i) (by omega)
  rw [Nat.add_sub_cancel_left] at hoff
  have hnot : ¬ s.Writes ramSize (BitVec.ofNat 64 (s.start.toNat + i)) := by
    rintro ⟨-, hlt⟩
    rw [hoff, BitVec.toNat_ofNat] at hlt
    omega
  rw [h.filled, show s.start.toNat + s.desc.len.toNat + (i - s.desc.len.toNat) = s.start.toNat + i by omega]
  unfold laidOver
  rw [List.foldl_cons, if_neg hnot]

/-- **The packet of a chain that fits holds its bytes one after the other.** -/
theorem whole_at (v : U8) : ∀ {n : Nat} {s : TxSeg} {i : Nat} {a : U64},
    FitsFrom ramSize s.start.toNat (txPasses vq ramSize ram n s) →
    ((txPasses vq ramSize ram n s).flatMap fun t => t.desc.addresses)[i]? = some a →
      laidOver ramSize ram (BitVec.ofNat 64 (s.start.toNat + i)) (txPasses vq ramSize ram n s) v = ram (a - ramBase)
  | 0, _, _, _, _, ha => nomatch ha
  | n + 1, s, i, a, h, ha => by
    have hlen := h.length
    have hi := (List.getElem?_eq_some_iff.1 ha).1
    rw [flatMap_length] at hi
    unfold txPasses at h ha ⊢
    rw [List.flatMap_cons] at ha
    by_cases hown : i < s.desc.len.toNat
    · rw [List.getElem?_append_left (by rw [addresses_length]; exact hown)] at ha
      obtain ⟨-, rfl⟩ := addresses_getElem? ha
      refine h.own hown (fun t ht => ?_) v
      split at ht
      next hnext =>
        rw [if_pos hnext] at h
        have hfilled : (s.next vq ramSize ram).start.toNat = s.start.toNat + s.desc.len.toNat := h.filled
        exact whole_below h.tail (by omega) t ht
      next => cases ht
    · rw [List.getElem?_append_right (by rw [addresses_length]; omega), addresses_length] at ha
      rw [h.other (by omega) (by omega)]
      split at ha
      next hnext =>
        rw [if_pos hnext] at h ⊢
        have hstart : (s.next vq ramSize ram).start = s.filled := rfl
        have hat := whole_at v (s := s.next vq ramSize ram) h.tail ha
        rw [hstart] at hat
        exact hat
      next => cases ha

theorem whole_length : ∀ {n : Nat} {s : TxSeg} {len : U32}, FitsFrom ramSize s.start.toNat (txPasses vq ramSize ram n s) →
    txLength vq ramSize ram n s = some len → len.toNat = s.start.toNat + totalLength (txPasses vq ramSize ram n s)
  | 0, _, _, _, hlen => nomatch hlen
  | n + 1, s, len, h, hlen => by
    unfold txPasses at h ⊢
    unfold txLength at hlen
    have hfilled := h.filled
    rw [totalLength_cons]
    split at hlen
    next hnext =>
      rw [if_pos hnext] at h ⊢
      rw [whole_length h.tail hlen]
      show s.filled.toNat + _ = _
      omega
    next hnext =>
      rw [if_neg hnext]
      obtain rfl := Option.some.inj hlen
      rw [hfilled]
      rfl

theorem ChainFilled.whole {head : U16} (h : ChainFilled vq ramSize ram head) (desc pkt : Mem) {n : Nat} {r : TxWalk}
    (hr : netTxWalk vq ramSize ram n (.start vq ramSize ram desc pkt head) = some r)
    (hw : Whole vq ramSize (txPasses vq ramSize ram n (headSeg vq ramSize ram head))) :
    r.frame = sentFrame ram (((txPasses vq ramSize ram n (headSeg vq ramSize ram head)).flatMap
      fun s => s.desc.addresses).drop 10) := by
  have hstart : (TxWalk.start vq ramSize ram desc pkt head).seg vq ramSize ram = headSeg vq ramSize ram head :=
    start_seg h.readable desc pkt
  have hfits : FitsFrom ramSize (headSeg vq ramSize ram head).start.toNat
      (txPasses vq ramSize ram n (headSeg vq ramSize ram head)) :=
    ⟨hw.buffers, by rw [show (headSeg vq ramSize ram head).start.toNat = 0 from rfl, Nat.zero_add]; exact hw.length⟩
  have hlen := @netTxWalk_length vq ramSize ram n (.start vq ramSize ram desc pkt head)
  rw [hr, hstart] at hlen
  have htotal := whole_length hfits hlen.symm
  rw [show (headSeg vq ramSize ram head).start.toNat = 0 from rfl, Nat.zero_add, ← flatMap_length] at htotal
  generalize haddrs : ((txPasses vq ramSize ram n (headSeg vq ramSize ram head)).flatMap fun s => s.desc.addresses) = addrs
    at htotal
  have hbytes : ∀ j, 10 ≤ j → j < r.pkt_len.toNat → r.pkt (BitVec.ofNat 64 j) = ram (addrs.getD j 0 - ramBase) := by
    intro j h10 hlt
    have hget : addrs[j]? = some (addrs.getD j 0) := by
      rw [List.getD_eq_getElem?_getD, List.getElem?_eq_getElem (htotal ▸ hlt)]
      rfl
    rw [netTxWalk_pkt _ hr, hstart]
    have hat := whole_at (pkt (BitVec.ofNat 64 j)) hfits (a := addrs.getD j 0) (i := j) (by rw [haddrs]; exact hget)
    rw [show (headSeg vq ramSize ram head).start.toNat = 0 from rfl, Nat.zero_add] at hat
    exact hat
  rw [frame_eq hbytes, htotal]
  congr 1
  refine List.ext_getElem (by simp) fun i hi hi' => ?_
  rw [List.getElem_map, List.getElem_range, List.getElem_drop, List.getD_eq_getElem?_getD, List.getElem?_eq_getElem]
  rfl

/-! ## What shows through -/

theorem frame_getElem? {w : TxWalk} {j : Nat} (h10 : 10 ≤ j) (hlt : j < w.pkt_len.toNat) :
    ∃ f, w.frame = some f ∧ f[j - 10]? = some (w.pkt (BitVec.ofNat 64 j)) := by
  have hlen : 10 < w.pkt_len := BitVec.lt_def.2 (Nat.lt_of_le_of_lt h10 hlt)
  refine ⟨_, if_pos hlen, ?_⟩
  rw [List.getElem?_map, List.getElem?_range (by omega), Option.map_some, Nat.add_sub_cancel' h10]

/-- **A byte that no pass has written is the stack's**, and no frame of guest bytes has it. -/
theorem TxAssembles.written {head : U16} (h : TxAssembles vq ramSize ram head) {desc : Mem} {s : TxSeg}
    (hseg : ∀ pkt, (TxWalk.start vq ramSize ram desc pkt head).seg vq ramSize ram = s) {n : Nat} {len : U32}
    (hlen : txLength vq ramSize ram n s = some len) {j : Nat} (h10 : 10 ≤ j) (hlt : j < len.toNat) :
    ∃ t ∈ txPasses vq ramSize ram n s, t.Writes ramSize (BitVec.ofNat 64 j) := by
  by_contra hnone
  have hnot : ∀ t ∈ txPasses vq ramSize ram n s, ¬ t.Writes ramSize (BitVec.ofNat 64 j) := fun t ht hw => hnone ⟨t, ht, hw⟩
  obtain ⟨addrs, -, hframe⟩ := h.guest
  have hshows : ∀ v : U8, ∃ f, sentFrame ram addrs = some f ∧ f[j - 10]? = some v := by
    intro v
    obtain ⟨r, hr, rfl⟩ := netTxWalk_of_length (w := .start vq ramSize ram desc (fun _ => v) head) ((hseg _).symm ▸ hlen)
    obtain ⟨f, hf, hj⟩ := frame_getElem? h10 hlt
    rw [netTxWalk_pkt _ hr, hseg, laidOver_of_none hnot] at hj
    exact ⟨f, (hframe desc _ n r hr).symm.trans hf, hj⟩
  obtain ⟨f, hf, h0⟩ := hshows 0
  obtain ⟨f', hf', h1⟩ := hshows 1
  rw [hf] at hf'
  obtain rfl := Option.some.inj hf'
  rw [h0] at h1
  exact absurd (Option.some.inj h1) (by decide)

/-- A descriptor of 11 bytes that are not in RAM, as the stack may hold it. -/
def staleDesc : Mem := Mem.write (fun _ => 0) 8 4 11

theorem staleDesc_desc : VringDesc.ofBytes staleDesc = ⟨0, 11, 0, 0⟩ := rfl

theorem TxAssembles.readable {head : U16} (h : TxAssembles vq ramSize ram head) : vq.readable ramSize head = true := by
  by_contra hr
  have hseg : ∀ pkt, (TxWalk.start vq ramSize ram staleDesc pkt head).seg vq ramSize ram = ⟨0, head, 0, 11, 0, 0⟩ := by
    intro pkt
    have hstart : (TxWalk.start vq ramSize ram staleDesc pkt head).desc = staleDesc := by
      show (readDesc vq ramSize ram head staleDesc).1 = staleDesc
      rw [readDesc_eq, if_neg hr]
    have hdesc : (TxWalk.start vq ramSize ram staleDesc pkt head).current vq ramSize ram =
        .ofBytes (TxWalk.start vq ramSize ram staleDesc pkt head).desc := current_unreadable hr
    unfold TxWalk.seg
    rw [hdesc, hstart, staleDesc_desc]
    rfl
  have hlast : ¬ VringDesc.hasNext ⟨0, 11, 0, 0⟩ = true := by decide
  have hlen : txLength vq ramSize ram 1 ⟨0, head, 0, 11, 0, 0⟩ = some 11 := by
    have hfits : TxSeg.Fits ⟨0, head, 0, 11, 0, 0⟩ := show (0 : U32) + 11 ≤ 65536 by decide
    unfold txLength TxSeg.filled
    rw [if_neg hlast, if_pos hfits]
    rfl
  obtain ⟨t, ht, hw⟩ := h.written hseg hlen (j := 10) (by decide) (by decide)
  unfold txPasses at ht
  rw [if_neg hlast] at ht
  obtain rfl := List.mem_singleton.1 ht
  -- address 0 is no RAM, whatever its size
  have hin : guestInBounds ramSize 0 11 = true := hw.1.2
  rw [show guestInBounds ramSize 0 11 = false from rfl] at hin
  cases hin

theorem TxAssembles.passSafe {head : U16} (h : TxAssembles vq ramSize ram head) {n : Nat} {s : TxSeg}
    (hs : s ∈ txPasses vq ramSize ram n (headSeg vq ramSize ram head)) :
    ∃ w, w.seg vq ramSize ram = s ∧ PassSafe vq ramSize ram w := by
  rw [← start_seg h.readable (fun _ => 0) (fun _ => 0), ← txStates_seg] at hs
  obtain ⟨w, hw, hseg⟩ := List.mem_map.1 hs
  exact ⟨w, hseg, h.safe _ _ n w hw⟩

theorem TxAssembles.filled {head : U16} (h : TxAssembles vq ramSize ram head) : ChainFilled vq ramSize ram head where
  readable := h.readable
  entries n s hs hwraps := by
    obtain ⟨w, rfl, hw⟩ := h.passSafe hs
    obtain ⟨hin, hout⟩ := (guestInBounds_outside_iff _ _ _).2 hwraps
    exact hout (hw.entry hin)
  copies n s hs hc := by
    obtain ⟨w, rfl, hw⟩ := h.passSafe hs
    obtain ⟨hin, hlen⟩ := hw.bytes hc
    exact ⟨not_wraps_of_inGuestRam hin, Nat.lt_of_le_of_lt hlen (by decide)⟩
  filled n len hlen j h10 hlt := h.written (start_seg h.readable (fun _ => 0)) hlen h10 hlt

/-- **A pass of the transmit loop hands over bytes that its chain designates**, if any. -/
theorem netTxPass_sent [NetHost] {fuel : Nat} {s t : NetTx} (h : netTxPass ramSize fuel s = some t)
    (hslirp : s.dev.slirp = true)
    (hok : TxAssembles (s.dev.queues 1) ramSize s.ram (availHead (s.dev.queues 1) ramSize s.ram)) :
    ∃ addrs, (∀ a ∈ addrs, Designated (s.dev.queues 1) ramSize s.ram (availHead (s.dev.queues 1) ramSize s.ram) a) ∧
      t.sent = s.sent ++ (sentFrame s.ram addrs).toList := by
  obtain ⟨addrs, haddrs, hframe⟩ := hok.guest
  obtain ⟨w, hw, rfl⟩ := Option.map_eq_some_iff.1 h
  refine ⟨addrs, haddrs, ?_⟩
  show (slirpInput s.dev s.sent w.frame).2 = _
  rw [hframe _ _ _ _ hw]
  cases sentFrame s.ram addrs with
  | none => exact (List.append_nil _).symm
  | some f =>
    unfold slirpInput
    dsimp only
    rw [if_pos hslirp]
    rfl

/-- **What the transmit loop sends are the bytes that the chain designates exactly where its head can be read, nothing
wraps, and no byte behind the header is left to the stack.** -/
theorem txAssembles_iff (vq : VirtioQueue) (ramSize : U64) (ram : Mem) (head : U16) :
    TxAssembles vq ramSize ram head ↔ ChainFilled vq ramSize ram head := by
  refine ⟨TxAssembles.filled, fun h => ?_⟩
  exact {
    safe := fun desc pkt n w hw => h.safe desc pkt n hw
    guest := h.guest
    whole := fun desc pkt n r hr hw => h.whole desc pkt hr hw }

end Walk

/-- A descriptor of 11 bytes that are not in RAM. -/
theorem not_txAssembles_unreadable :
    ¬ ∀ (vq : VirtioQueue) (ramSize : U64) (ram : Mem) (head : U16), TxAssembles vq ramSize ram head := by
  intro hall
  have h := hall (oneDescQueue 1) 0x10000 (oneDescRam 0 11 0 0) 0
  have hlen : txLength (oneDescQueue 1) 0x10000 (oneDescRam 0 11 0 0) 1
      (headSeg (oneDescQueue 1) 0x10000 (oneDescRam 0 11 0 0) 0) = some 11 := by decide +kernel
  have hnone : ((txPasses (oneDescQueue 1) 0x10000 (oneDescRam 0 11 0 0) 1
      (headSeg (oneDescQueue 1) 0x10000 (oneDescRam 0 11 0 0) 0)).all fun t => !decide (t.Writes 0x10000 10)) = true := by
    decide +kernel
  obtain ⟨t, ht, hw⟩ := h.written (start_seg h.readable (fun _ => 0)) hlen (j := 10) (by decide) (by decide)
  have hnot := List.all_eq_true.1 hnone t ht
  rw [Bool.not_eq_true', decide_eq_false_iff_not] at hnot
  exact hnot hw

end PgLinux
