import PgLinux.DiskArray
/-!
# StatusByte — what a request may write, the status byte included (`virtio_blk_process_queue`)

The device finds the place of the status byte in a second walk.  It takes the descriptor it read last for the last of
the chain, and looks neither whether the chain ends there nor whether the buffer is one to write.
-/
namespace PgLinux

/-! ## The rule -/

section Rule

variable (vq : VirtioQueue) (ramSize : U64)

/-- The chain as the driver left it. -/
abbrev requestChain (ram : Mem) (head : U16) : List U16 := chain vq ramSize ram vq.num.toNat head

/-- The device accepts the header. -/
def HeaderTaken (ram : Mem) (head : U16) : Prop :=
  vq.readable ramSize head = true ∧ ¬ (descAt vq ramSize ram head).len < 16 ∧
    guestInBounds ramSize (descAt vq ramSize ram head).addr 16 = true

instance (ram : Mem) (head : U16) : Decidable (HeaderTaken vq ramSize ram head) :=
  inferInstanceAs (Decidable (_ ∧ _ ∧ _))

/-- The data buffers of a read request: behind the header, and not the last. -/
def ReadData (ram : Mem) (head : U16) (a : U64) : Prop :=
  HeaderTaken vq ramSize ram head ∧ (requestHdr vq ramSize ram head).type = virtioBlkTIn ∧
    ∃ i ∈ (requestChain vq ramSize ram head).tail, (descAt vq ramSize ram i).hasNext = true ∧
      (descAt vq ramSize ram i).InBuffer a

/-- The device copies disk bytes to the buffer of `d`, at sector `sector` of a read. -/
structure VringDesc.Delivers (diskSize ramSize sector : U64) (d : VringDesc) (a : U64) : Prop where
  hasNext : d.hasNext = true
  copied : (d.isWrite && decide (d.len = 1)) = false
  passes : (⟨virtioBlkTIn, sector, d.addr, d.len⟩ : Segment).passes diskSize ramSize = true
  inBuffer : d.InBuffer a

/-- The descriptors `ds`, met at `sector`, deliver a byte to `a`. -/
def Delivered (diskSize ramSize : U64) : U64 → List VringDesc → U64 → Prop
  | _, [], _ => False
  | sector, d :: ds, a =>
    d.Delivers diskSize ramSize sector a ∨ Delivered diskSize ramSize (sector + (d.len / 512).setWidth 64) ds a

/-- The bytes of the data buffers that a read request fills. -/
def ReadDelivers (diskSize : U64) (ram : Mem) (head : U16) (a : U64) : Prop :=
  HeaderTaken vq ramSize ram head ∧ (requestHdr vq ramSize ram head).type = virtioBlkTIn ∧
    Delivered diskSize ramSize (requestHdr vq ramSize ram head).sector
      ((requestChain vq ramSize ram head).tail.map (descAt vq ramSize ram)) a

/-- The byte that `writeStatus` writes. -/
def statusTarget (w : BlkWalk) (head : U16) : Option U64 :=
  let d := VringDesc.ofBytes (lastDesc vq ramSize w.mem.ram vq.num.toNat head fun _ => 0)
  if 1 ≤ w.phase ∧ guestInBounds ramSize d.addr 1 = true then some d.addr else none

/-- The chain ends in descriptor `i`, which is for the device to write. -/
structure EndsInStatus (ram : Mem) (head i : U16) : Prop where
  last : (requestChain vq ramSize ram head).getLast? = some i
  ends : (descAt vq ramSize ram i).hasNext = false
  writable : (descAt vq ramSize ram i).isWrite = true

/-- A request writes the data buffers of a read, the used ring and at most one status byte, which is in the buffer at
the end of its chain. -/
structure Disciplined (dev : VirtioDev) (mem : BlkMem) (head : U16) : Prop where
  writes : SameOn (fun a => ¬ ReadData vq ramSize mem.ram head a ∧
      statusTarget vq ramSize (virtioBlkRequest dev vq ramSize mem head) head ≠ some a ∧ ¬ vq.InUsed a)
    mem.ram (serve dev vq ramSize mem head).ram
  status : ∀ a, statusTarget vq ramSize (virtioBlkRequest dev vq ramSize mem head) head = some a →
    ∃ i, EndsInStatus vq ramSize mem.ram head i ∧ (descAt vq ramSize mem.ram i).InBuffer a

/-- The last descriptor of the chain that can be read. -/
def lastRead (ram : Mem) (head : U16) : Option U16 :=
  ((requestChain vq ramSize ram head).filter (vq.readable ramSize)).getLast?

/-- If the device accepts the header and the last descriptor it can read has an address in RAM, that descriptor ends the
chain, is for the device to write and has a byte. -/
def StatusFits (ram : Mem) (head : U16) : Prop :=
  HeaderTaken vq ramSize ram head → ∀ i, lastRead vq ramSize ram head = some i →
    guestInBounds ramSize (descAt vq ramSize ram i).addr 1 = true →
      EndsInStatus vq ramSize ram head i ∧ 0 < (descAt vq ramSize ram i).len.toNat

/-- A read does not deliver its data onto the chain itself. -/
def ChainKept (diskSize : U64) (ram : Mem) (head : U16) : Prop :=
  ∀ a, ReadDelivers vq ramSize diskSize ram head a → ∀ i ∈ requestChain vq ramSize ram head, ¬ vq.InEntry i a

end Rule

/-! ## What a request writes -/

section Request

variable (dev : VirtioDev) {vq : VirtioQueue} {ramSize : U64}

theorem exists_of_delivered {diskSize ramSize : U64} {a : U64} : ∀ {ds : List VringDesc} {sector : U64},
    Delivered diskSize ramSize sector ds a → ∃ d ∈ ds, d.hasNext = true ∧ d.InBuffer a
  | d :: _, _, .inl h => ⟨d, List.mem_cons_self .., h.hasNext, h.inBuffer⟩
  | _ :: _, _, .inr h =>
    have ⟨d, hd, hin⟩ := exists_of_delivered h
    ⟨d, List.mem_cons_of_mem _ hd, hin⟩

/-- What a read delivers goes to its data buffers. -/
theorem ReadDelivers.readData {diskSize : U64} {ram : Mem} {head : U16} {a : U64}
    (h : ReadDelivers vq ramSize diskSize ram head a) : ReadData vq ramSize ram head a := by
  obtain ⟨htaken, htype, hdel⟩ := h
  obtain ⟨d, hd, hnext, hin⟩ := exists_of_delivered hdel
  obtain ⟨i, hi, rfl⟩ := List.mem_map.1 hd
  exact ⟨htaken, htype, i, hi, hnext, hin⟩

/-- A data descriptor writes its buffer, in a read that passes. -/
theorem virtioBlkData_writes (ramSize : U64) (w : BlkWalk) (d : VringDesc) :
    (virtioBlkData dev ramSize w d).hdr.type = w.hdr.type ∧
      SameOn (fun a => ¬ (w.hdr.type = virtioBlkTIn ∧ (w.segment d).passes dev.disk_size ramSize = true ∧ d.InBuffer a))
        w.mem.ram (virtioBlkData dev ramSize w d).mem.ram := by
  have htype : (virtioBlkData dev ramSize w d).hdr.type = w.hdr.type := by
    by_cases hio : w.hdr.isIo
    · rw [(virtioBlkData_io dev ramSize w d hio).2.1]
    · rw [(virtioBlkData_not_io dev ramSize w d hio).2.1]
  refine ⟨htype, ?_⟩
  by_cases hin : w.hdr.type = virtioBlkTIn ∧ (w.segment d).passes dev.disk_size ramSize = true
  · exact (virtioBlkData_ram dev w d).mono fun a ha hb => ha ⟨hin.1, hin.2, hb⟩
  · have hs : (w.note d).segment d = w.segment d := rfl
    unfold virtioBlkData
    split
    next ht =>
      rw [virtioBlkIn_eq, hs, if_neg fun hp => hin ⟨ht, hp⟩]
      exact .refl _ _
    next =>
      split
      · rw [virtioBlkOut_eq]
        split <;> exact .refl _ _
      · split <;> exact .refl _ _

/-- **One iteration behind the header.** -/
theorem virtioBlkDesc_behind (vq : VirtioQueue) (ramSize : U64) (w : BlkWalk) (hphase : w.phase ≠ 0) :
    (virtioBlkDesc dev vq ramSize w).1.phase ≠ 0 ∧ (virtioBlkDesc dev vq ramSize w).1.hdr.type = w.hdr.type ∧
    SameOn (fun a => ¬ (w.hdr.type = virtioBlkTIn ∧
        (descAt vq ramSize w.mem.ram w.idx).Delivers dev.disk_size ramSize w.hdr.sector a)) w.mem.ram
        (virtioBlkDesc dev vq ramSize w).1.mem.ram ∧
      ((virtioBlkDesc dev vq ramSize w).2 = true → (descAt vq ramSize w.mem.ram w.idx).hasNext = true ∧
        (virtioBlkDesc dev vq ramSize w).1.idx = (descAt vq ramSize w.mem.ram w.idx).next ∧
        (w.hdr.type = virtioBlkTIn → (virtioBlkDesc dev vq ramSize w).1.hdr.sector =
          w.hdr.sector + ((descAt vq ramSize w.mem.ram w.idx).len / 512).setWidth 64)) := by
  have hdesc : w.desc vq ramSize = descAt vq ramSize w.mem.ram w.idx := rfl
  by_cases hgo : w.readable vq ramSize = true ∧ (w.desc vq ramSize).hasNext = true
  · rw [virtioBlkDesc_goes hphase hgo.1 hgo.2, hdesc]
    have hnext := hgo.2
    rw [hdesc] at hnext
    generalize descAt vq ramSize w.mem.ram w.idx = d at hnext ⊢
    obtain ⟨htype, hram⟩ := virtioBlkData_writes dev ramSize w d
    refine ⟨chainData_phase dev hphase d, ?_, ?_, fun _ => ⟨hnext, rfl, fun ht => ?_⟩⟩
    · show (chainData dev ramSize w d).hdr.type = w.hdr.type
      unfold chainData
      split
      · rfl
      · exact htype
    · show SameOn _ _ (chainData dev ramSize w d).mem.ram
      unfold chainData
      split
      · exact .refl _ _
      next hskip =>
        refine hram.mono fun a ha hb => ha ⟨hb.1, hnext, eq_false_of_ne_true hskip, ?_, hb.2.2⟩
        rw [← hb.1]
        exact hb.2.1
    · exact congrArg BlkReqHdr.sector (chainData_hdr dev (.inl ht) d)
  · rw [virtioBlkDesc_ends hphase hgo]
    split
    · exact ⟨two_ne_zero, rfl, .refl _ _, fun hf => by cases hf⟩
    · exact ⟨hphase, rfl, .refl _ _, fun hf => by cases hf⟩

/-- **The walk behind the header writes what its chain delivers**, if this is apart from the chain itself. -/
theorem virtioBlkWalk_behind (P : U64 → Prop) : ∀ (n : Nat) (w : BlkWalk), w.phase ≠ 0 →
    (w.hdr.type = virtioBlkTIn → ∀ a, Delivered dev.disk_size ramSize w.hdr.sector
      ((chain vq ramSize w.mem.ram n w.idx).map (descAt vq ramSize w.mem.ram)) a → P a) →
    (∀ i ∈ chain vq ramSize w.mem.ram n w.idx, ∀ a, vq.InEntry i a → ¬ P a) →
      (virtioBlkWalk dev vq ramSize n w).phase ≠ 0 ∧
        SameOn (fun a => ¬ P a) w.mem.ram (virtioBlkWalk dev vq ramSize n w).mem.ram
  | 0, w, hphase, _, _ => ⟨hphase, .refl _ _⟩
  | n + 1, w, hphase, hdata, hentry => by
    obtain ⟨hphase', htype, hram, hnext⟩ := virtioBlkDesc_behind dev vq ramSize w hphase
    have hfirst : ∀ a, (descAt vq ramSize w.mem.ram w.idx).Delivers dev.disk_size ramSize w.hdr.sector a →
        Delivered dev.disk_size ramSize w.hdr.sector
          ((chain vq ramSize w.mem.ram (n + 1) w.idx).map (descAt vq ramSize w.mem.ram)) a := by
      intro a ha
      unfold chain
      split <;> exact .inl ha
    have hnow : SameOn (fun a => ¬ P a) w.mem.ram (virtioBlkDesc dev vq ramSize w).1.mem.ram :=
      hram.mono fun a ha hb => ha (hdata hb.1 a (hfirst a hb.2))
    unfold virtioBlkWalk
    split
    next hgo =>
      obtain ⟨hn, hat, hsector⟩ := hnext hgo
      rw [chain_next n hn] at hdata
      -- the rest of the chain is as it was
      have hkeep : ∀ i ∈ chain vq ramSize w.mem.ram n (descAt vq ramSize w.mem.ram w.idx).next,
          SameOn (vq.InEntry i) w.mem.ram (virtioBlkDesc dev vq ramSize w).1.mem.ram :=
        fun i hi => hnow.mono (hentry i (mem_chain_next hn hi))
      have hchain : chain vq ramSize (virtioBlkDesc dev vq ramSize w).1.mem.ram n
          (virtioBlkDesc dev vq ramSize w).1.idx =
            chain vq ramSize w.mem.ram n (descAt vq ramSize w.mem.ram w.idx).next := by
        rw [hat]
        exact chain_same n _ hkeep
      have hdescs : (chain vq ramSize w.mem.ram n (descAt vq ramSize w.mem.ram w.idx).next).map
            (descAt vq ramSize (virtioBlkDesc dev vq ramSize w).1.mem.ram) =
          (chain vq ramSize w.mem.ram n (descAt vq ramSize w.mem.ram w.idx).next).map (descAt vq ramSize w.mem.ram) :=
        List.map_congr_left fun i hi => descAt_same (hkeep i hi)
      obtain ⟨hdone, hrest⟩ := virtioBlkWalk_behind P n (virtioBlkDesc dev vq ramSize w).1 hphase'
        (fun ht a ha => by
          rw [htype] at ht
          rw [hchain, hdescs, hsector ht] at ha
          exact hdata ht a (.inr ha))
        (fun i hi => hentry i (mem_chain_next hn (hchain ▸ hi)))
      exact ⟨hdone, hnow.trans hrest⟩
    next => exact ⟨hphase', hnow⟩

/-- The iteration on the header. -/
theorem virtioBlkDesc_first (w : BlkWalk) (hphase : w.phase = 0) : virtioBlkDesc dev vq ramSize w =
    if HeaderTaken vq ramSize w.mem.ram w.idx then
      ({ w with
         hdr := requestHdr vq ramSize w.mem.ram w.idx, phase := 1
         idx := if (descAt vq ramSize w.mem.ram w.idx).hasNext
           then (descAt vq ramSize w.mem.ram w.idx).next else w.idx },
       (descAt vq ramSize w.mem.ram w.idx).hasNext)
    else ({ w with status := virtioBlkSIoerr }, false) := by
  have hread : (readDesc vq ramSize w.mem.ram w.idx fun _ => 0).2 = vq.readable ramSize w.idx := guestRead_snd ..
  have hdesc : VringDesc.ofBytes (readDesc vq ramSize w.mem.ram w.idx fun _ => 0).1 =
      descAt vq ramSize w.mem.ram w.idx := rfl
  have hhdr : (guestRead w.mem.ram ramSize (descAt vq ramSize w.mem.ram w.idx).addr (fun _ => 0) 0 16).2 =
      guestInBounds ramSize (descAt vq ramSize w.mem.ram w.idx).addr 16 := guestRead_snd ..
  unfold virtioBlkDesc
  dsimp only
  rw [hread, hdesc]
  by_cases hr : vq.readable ramSize w.idx = true
  · rw [if_neg (by rw [hr]; decide), if_pos hphase]
    by_cases hlen : (descAt vq ramSize w.mem.ram w.idx).len < 16
    · rw [if_pos hlen, if_neg fun h => h.2.1 hlen]
    · rw [if_neg hlen, hhdr]
      by_cases hin : guestInBounds ramSize (descAt vq ramSize w.mem.ram w.idx).addr 16 = true
      · have htaken : HeaderTaken vq ramSize w.mem.ram w.idx := ⟨hr, hlen, hin⟩
        rw [if_pos htaken, if_neg (by rw [hin]; decide)]
        rfl
      · rw [if_pos (by simpa using hin), if_neg fun h => hin h.2.2]
  · rw [if_pos (by simpa using hr), if_neg fun h => hr h.1]

/-- **A request writes what it delivers, in a read, until the status byte**; it gets behind the header if the device
accepts it. -/
theorem virtioBlkRequest_writes {mem : BlkMem} {head : U16} (hkept : ChainKept vq ramSize dev.disk_size mem.ram head)
    (hnum : 0 < vq.num.toNat) :
    ((virtioBlkRequest dev vq ramSize mem head).phase ≠ 0 ↔ HeaderTaken vq ramSize mem.ram head) ∧
      SameOn (fun a => ¬ ReadDelivers vq ramSize dev.disk_size mem.ram head a) mem.ram
        (virtioBlkRequest dev vq ramSize mem head).mem.ram := by
  obtain ⟨n, hn⟩ : ∃ n, vq.num.toNat = n + 1 := Nat.exists_eq_add_one.2 hnum
  have hfirst : virtioBlkDesc dev vq ramSize (.start mem head) = if HeaderTaken vq ramSize mem.ram head then
      ({ walkAtData vq ramSize mem head with
         idx := if (descAt vq ramSize mem.ram head).hasNext then (descAt vq ramSize mem.ram head).next else head },
       (descAt vq ramSize mem.ram head).hasNext)
    else ({ BlkWalk.start mem head with status := virtioBlkSIoerr }, false) :=
    virtioBlkDesc_first dev (.start mem head) rfl
  unfold virtioBlkRequest
  rw [hn]
  unfold virtioBlkWalk
  rw [hfirst]
  by_cases htaken : HeaderTaken vq ramSize mem.ram head
  · rw [if_pos htaken]
    dsimp only
    by_cases hnext : (descAt vq ramSize mem.ram head).hasNext = true
    · have htail : (requestChain vq ramSize mem.ram head).tail =
          chain vq ramSize mem.ram n (descAt vq ramSize mem.ram head).next := by
        unfold requestChain
        rw [hn, chain_next n hnext]
        rfl
      rw [if_pos hnext, if_pos hnext]
      obtain ⟨hphase, hram⟩ := virtioBlkWalk_behind dev (ReadDelivers vq ramSize dev.disk_size mem.ram head) n
        { walkAtData vq ramSize mem head with idx := (descAt vq ramSize mem.ram head).next } Nat.one_ne_zero
        (fun ht a ha => ⟨htaken, ht, htail ▸ ha⟩)
        (fun i hi a ha hr => hkept a hr i (List.mem_of_mem_tail (htail ▸ hi)) ha)
      exact ⟨⟨fun _ => htaken, fun _ => hphase⟩, hram⟩
    · rw [if_neg hnext]
      exact ⟨⟨fun _ => htaken, fun _ => Nat.one_ne_zero⟩, .refl _ _⟩
  · rw [if_neg htaken]
    dsimp only
    rw [if_neg (by decide)]
    exact ⟨⟨fun h => absurd rfl h, fun h => absurd h htaken⟩, .refl _ _⟩

/-! ## The status byte and the used ring -/

/-- The status byte goes to its target, and nowhere else. -/
theorem writeStatus_target (vq : VirtioQueue) (ramSize : U64) (w : BlkWalk) (head : U16) :
    (∀ a, statusTarget vq ramSize w head = some a → guestByte (writeStatus vq ramSize w head) a = w.status) ∧
      SameOn (fun a => statusTarget vq ramSize w head ≠ some a) w.mem.ram (writeStatus vq ramSize w head) := by
  unfold writeStatus statusTarget
  dsimp only
  generalize VringDesc.ofBytes (lastDesc vq ramSize w.mem.ram vq.num.toNat head fun _ => 0) = d
  by_cases hphase : 1 ≤ w.phase
  · rw [if_pos hphase]
    by_cases hin : guestInBounds ramSize d.addr 1 = true
    · rw [if_pos ⟨hphase, hin⟩]
      refine ⟨fun a ha => ?_, fun a ha => ?_⟩
      · obtain rfl := Option.some.inj ha
        have hfirst : Within d.addr (1 : U64).toNat d.addr := by
          unfold Within
          rw [BitVec.sub_self]
          decide
        rw [guestByte_guestWrite, if_pos ⟨hin, hfirst⟩]
      · rw [guestByte_guestWrite, if_neg fun h => ha (congrArg some (within_one h.2).symm)]
    · rw [if_neg fun h => hin h.2]
      refine ⟨fun a ha => (by cases ha), fun a _ => ?_⟩
      rw [guestByte_guestWrite, if_neg fun h => hin h.1]
  · rw [if_neg hphase, if_neg fun h => hphase h.1]
    exact ⟨fun a ha => (by cases ha), .refl _ _⟩

theorem addUsed_ram (hnum : 0 < vq.num.toNat) (ram : Mem) (head : U16) (total : U32) :
    SameOn (fun a => ¬ vq.InUsed a) ram (addUsed vq ramSize ram head total) := by
  have h2 : (2 : U64).toNat = 2 := rfl
  have h4 : (4 : U64).toNat = 4 := rfl
  have h8 : (8 : U64).toNat = 8 := rfl
  unfold addUsed guestWrite16
  dsimp only
  refine (SameOn.mono (guestWrite_same _ _ _ _ _ _) fun a ha hin => ha ?_).trans
    (SameOn.mono (guestWrite_same _ _ _ _ _ _) fun a ha hin => ha (within_inner hin (by rw [h2]; omega)))
  generalize (guestRead16 ram ramSize (vq.used_addr + 2) 0).1 = usedIdx at hin
  rw [BitVec.add_assoc] at hin
  refine within_inner hin ?_
  have hlt := Nat.mod_lt (usedIdx.setWidth 32).toNat hnum
  have hsize := vq.num.isLt
  rw [BitVec.toNat_add, BitVec.toNat_mul, BitVec.toNat_setWidth, BitVec.toNat_setWidth, BitVec.toNat_umod, h4, h8]
  omega

/-- **Where the status byte goes**: to the last descriptor that can be read. -/
theorem statusTarget_iff {mem : BlkMem} {head : U16} (hkept : ChainKept vq ramSize dev.disk_size mem.ram head)
    (hnum : 0 < vq.num.toNat) (a : U64) :
    statusTarget vq ramSize (virtioBlkRequest dev vq ramSize mem head) head = some a ↔
      HeaderTaken vq ramSize mem.ram head ∧ ∃ i, lastRead vq ramSize mem.ram head = some i ∧
        guestInBounds ramSize (descAt vq ramSize mem.ram i).addr 1 = true ∧ (descAt vq ramSize mem.ram i).addr = a := by
  obtain ⟨hphase, hram⟩ := virtioBlkRequest_writes dev hkept hnum
  generalize virtioBlkRequest dev vq ramSize mem head = w at hphase hram ⊢
  have hsame : ∀ i ∈ requestChain vq ramSize mem.ram head, SameOn (vq.InEntry i) mem.ram w.mem.ram :=
    fun i hi => hram.mono fun a ha hr => hkept a hr i hi ha
  have hchain : requestChain vq ramSize w.mem.ram head = requestChain vq ramSize mem.ram head := chain_same _ _ hsame
  unfold statusTarget
  dsimp only
  by_cases htaken : HeaderTaken vq ramSize mem.ram head
  · obtain ⟨n, hn⟩ : ∃ n, vq.num.toNat = n + 1 := Nat.exists_eq_add_one.2 hnum
    obtain ⟨i, hi, hlast⟩ := lastDesc_lastRead w.mem.ram n head (fun _ => 0) htaken.1
    rw [← hn] at hi hlast
    have hread : lastRead vq ramSize mem.ram head = some i := by
      unfold lastRead
      rw [← hchain]
      exact hi
    have hmem : i ∈ requestChain vq ramSize mem.ram head := (List.mem_filter.1 (List.mem_of_getLast? hread)).1
    rw [hlast, descAt_same (hsame i hmem), hread]
    constructor
    · intro h
      split at h
      next hin => exact ⟨htaken, i, rfl, hin.2, Option.some.inj h⟩
      next => cases h
    · rintro ⟨-, j, hj, hin, rfl⟩
      obtain rfl := Option.some.inj hj
      exact if_pos ⟨Nat.one_le_iff_ne_zero.2 (hphase.2 htaken), hin⟩
  · have hzero : w.phase = 0 := not_not.1 (mt hphase.1 htaken)
    rw [if_neg fun h => by rw [hzero] at h; exact absurd h.1 (by decide)]
    exact ⟨fun h => (by cases h), fun h => absurd h.1 htaken⟩

/-! ## Discipline -/

theorem EndsInStatus.lastRead {ram : Mem} {head i : U16} (h : EndsInStatus vq ramSize ram head i) :
    lastRead vq ramSize ram head = some i := by
  have hread : vq.readable ramSize i = true := by
    by_contra hno
    have hw := h.writable
    rw [descAt_unreadable (Bool.not_eq_true _ ▸ hno)] at hw
    exact absurd hw (by decide)
  obtain ⟨front, hfront⟩ := List.getLast?_eq_some_iff.1 h.last
  unfold PgLinux.lastRead
  rw [hfront, List.filter_append, List.filter_cons_of_pos hread, List.filter_nil, List.getLast?_concat]

/-- **A request keeps to its data buffers, the used ring and a status byte at the end of its chain exactly when the last
descriptor the device can read ends the chain and is for it to write**, or there is no status byte to write. -/
theorem disciplined_iff {mem : BlkMem} {head : U16} (hkept : ChainKept vq ramSize dev.disk_size mem.ram head)
    (hnum : 0 < vq.num.toNat) : Disciplined vq ramSize dev mem head ↔ StatusFits vq ramSize mem.ram head := by
  constructor
  · intro h htaken i hi hin
    obtain ⟨j, hj, hbuffer⟩ := h.status _ ((statusTarget_iff dev hkept hnum _).2 ⟨htaken, i, hi, hin, rfl⟩)
    obtain rfl : i = j := Option.some.inj (hi.symm.trans hj.lastRead)
    unfold VringDesc.InBuffer Within at hbuffer
    exact ⟨hj, Nat.zero_lt_of_lt hbuffer⟩
  · intro h
    refine ⟨?_, fun a ha => ?_⟩
    · have hwalk := (virtioBlkRequest_writes dev hkept hnum).2
      have hstatus := (writeStatus_target vq ramSize (virtioBlkRequest dev vq ramSize mem head) head).2
      exact (hwalk.mono fun a ha hdel => ha.1 hdel.readData).trans ((hstatus.mono fun a ha => ha.2.1).trans
        ((addUsed_ram hnum _ _ _).mono fun a ha => ha.2.2))
    · obtain ⟨htaken, i, hi, hin, rfl⟩ := (statusTarget_iff dev hkept hnum a).1 ha
      obtain ⟨hends, hlen⟩ := h htaken i hi hin
      refine ⟨i, hends, ?_⟩
      unfold VringDesc.InBuffer Within
      rwa [BitVec.sub_self]

end Request

/-! ## Requests of the ring, and a header alone -/

/-- A chain of table descriptors with its buffers apart from the queue is kept. -/
theorem ChainApart.kept {vq : VirtioQueue} {ramSize : U64} (h : vq.LaidOut ramSize) {ram : Mem} {head : U16}
    (hc : ChainApart vq ramSize ram vq.num.toNat head) (diskSize : U64) : ChainKept vq ramSize diskSize ram head := by
  intro a hdel j hj hentry
  obtain ⟨-, -, i, hi, -, hbuffer⟩ := hdel.readData
  exact hc.buffers i (List.mem_of_mem_tail hi) a hbuffer (.inl (h.entry_table (hc.table j hj) a hentry))

/-- The read of sector 0 is such a request. -/
theorem disciplined_oneRequest :
    Disciplined (oneQueueDev.queues 0) 0x10000 oneQueueDev ⟨publishedRam, fun _ => 0, none, [], ⟨0, 0⟩⟩ 0 := by
  have hends : EndsInStatus (oneQueueDev.queues 0) 0x10000 publishedRam 0 2 := by
    refine ⟨?_, by decide +kernel, by decide +kernel⟩
    rw [requestChain, oneRequest_chain]
    rfl
  have hkept : ChainKept (oneQueueDev.queues 0) 0x10000 oneQueueDev.disk_size publishedRam 0 :=
    oneRequest_apart.toChainApart.kept oneQueue_ready.laidOut _
  have hiff : Disciplined (oneQueueDev.queues 0) 0x10000 oneQueueDev ⟨publishedRam, fun _ => 0, none, [], ⟨0, 0⟩⟩ 0 ↔
      StatusFits (oneQueueDev.queues 0) 0x10000 publishedRam 0 := disciplined_iff oneQueueDev hkept (by decide)
  refine hiff.2 fun _ i hi _ => ?_
  rw [hends.lastRead] at hi
  obtain rfl : 2 = i := Option.some.inj hi
  refine ⟨hends, ?_⟩
  rw [oneRequest_desc2.2]
  decide

/-- A write request that ends with its header. -/
def headerOnly : BlkMem := ⟨(blkChain 1 0).write 0x0C 2 0, fun _ => 0, none, [], ⟨0, 0⟩⟩

/-- Its status byte goes over the header, which is for the device to read. -/
theorem not_disciplined_headerOnly : ¬ Disciplined (oneQueueDev.queues 0) 0x10000 oneQueueDev headerOnly 0 := by
  intro h
  have htarget : statusTarget (oneQueueDev.queues 0) 0x10000
      (virtioBlkRequest oneQueueDev (oneQueueDev.queues 0) 0x10000 headerOnly 0) 0 = some 0x80000100 := by
    decide +kernel
  have hchain : requestChain (oneQueueDev.queues 0) 0x10000 headerOnly.ram 0 = [0] := by decide +kernel
  have hread : (descAt (oneQueueDev.queues 0) 0x10000 headerOnly.ram 0).isWrite = false := by decide +kernel
  obtain ⟨i, hends, -⟩ := h.status _ htarget
  have hlast := hends.last
  rw [hchain] at hlast
  obtain rfl : 0 = i := Option.some.inj hlast
  exact absurd (hread.symm.trans hends.writable) (by decide)

end PgLinux
