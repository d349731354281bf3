import PgLinux.DirtyBlocks
import PgLinux.Virtqueue
/-!
# DiskArray — the disk as an array of sectors

A request is a header, data buffers of whole sectors and a status byte.  However its data is split over buffers, byte `n`
of it is byte `n` of the sectors from the header's on: a write puts the guest's bytes there, a read delivers what the
last write put there.
-/
namespace PgLinux

/-! ## The data of a request -/

def dataBytes (ds : List VringDesc) : Nat := (ds.map fun d => d.len.toNat).sum

/-- The guest address of byte `n` of the data. -/
def dataAddr : List VringDesc → Nat → U64
  | [], _ => 0
  | d :: ds, n => if n < d.len.toNat then d.addr + BitVec.ofNat 64 n else dataAddr ds (n - d.len.toNat)

theorem dataBytes_cons (d : VringDesc) (ds : List VringDesc) : dataBytes (d :: ds) = d.len.toNat + dataBytes ds := by
  simp [dataBytes]

theorem dataAddr_lt {d : VringDesc} {n : Nat} (h : n < d.len.toNat) (ds : List VringDesc) :
    dataAddr (d :: ds) n = d.addr + BitVec.ofNat 64 n := if_pos h

theorem dataAddr_add (d : VringDesc) (ds : List VringDesc) (n : Nat) :
    dataAddr (d :: ds) (d.len.toNat + n) = dataAddr ds n := by
  unfold dataAddr
  rw [if_neg (by omega), Nat.add_sub_cancel_left]
  cases ds <;> rfl

/-- Byte `n` of the data is in one of the buffers. -/
theorem dataAddr_mem : ∀ (ds : List VringDesc) (n : Nat), n < dataBytes ds → ∃ d ∈ ds, d.InBuffer (dataAddr ds n)
  | [], n, h => absurd h (Nat.not_lt_zero n)
  | d :: ds, n, h => by
    by_cases hn : n < d.len.toNat
    · refine ⟨d, List.mem_cons_self .., ?_⟩
      rw [dataAddr_lt hn]
      unfold VringDesc.InBuffer Within
      rw [add_sub_self, BitVec.toNat_ofNat]
      exact Nat.lt_of_le_of_lt (Nat.mod_le _ _) hn
    · obtain ⟨k, rfl⟩ := Nat.exists_eq_add_of_le (Nat.le_of_not_lt hn)
      rw [dataBytes_cons] at h
      obtain ⟨d', hd', hin⟩ := dataAddr_mem ds k (by omega)
      exact ⟨d', List.mem_cons_of_mem _ hd', by rwa [dataAddr_add]⟩

/-- Every byte of a buffer is some byte of the data. -/
theorem exists_dataAddr : ∀ (ds : List VringDesc) (d : VringDesc) (a : U64), d ∈ ds → d.InBuffer a →
    ∃ n, n < dataBytes ds ∧ dataAddr ds n = a
  | e :: ds, d, a, hd, ha => by
    rw [dataBytes_cons]
    rcases List.mem_cons.1 hd with rfl | hd
    · have hlt : (a - d.addr).toNat < d.len.toNat := ha
      refine ⟨(a - d.addr).toNat, by omega, ?_⟩
      rw [dataAddr_lt hlt, BitVec.ofNat_toNat, BitVec.setWidth_eq, BitVec.add_comm, BitVec.sub_add_cancel]
    · obtain ⟨n, hn, he⟩ := exists_dataAddr ds d a hd ha
      exact ⟨e.len.toNat + n, by omega, by rw [dataAddr_add, he]⟩

/-- The data of a request of whole sectors, from sector `sector` on, as it lies in RAM and on the disk. -/
structure DataFits (ramSize diskSize : U64) (sector : U64) (ds : List VringDesc) : Prop where
  whole : ∀ d ∈ ds, d.len.toNat % 512 = 0
  inRam : ∀ d ∈ ds, guestInBounds ramSize d.addr (d.len.setWidth 64) = true
  onDisk : 512 * sector.toNat + dataBytes ds ≤ diskSize.toNat

theorem sector_advance {ramSize diskSize sector : U64} {d : VringDesc} {ds : List VringDesc}
    (h : DataFits ramSize diskSize sector (d :: ds)) :
    512 * (sector + (d.len / 512).setWidth 64).toNat = 512 * sector.toNat + d.len.toNat := by
  have h512 : (512 : U32).toNat = 512 := rfl
  have hwhole := h.whole d (List.mem_cons_self ..)
  have hdisk := h.onDisk
  have hsize := diskSize.isLt
  rw [dataBytes_cons] at hdisk
  rw [BitVec.toNat_add, BitVec.toNat_setWidth, BitVec.toNat_udiv, h512]
  omega

theorem DataFits.tail {ramSize diskSize sector : U64} {d : VringDesc} {ds : List VringDesc}
    (h : DataFits ramSize diskSize sector (d :: ds)) :
    DataFits ramSize diskSize (sector + (d.len / 512).setWidth 64) ds := by
  refine ⟨fun e he => h.whole e (List.mem_cons_of_mem _ he), fun e he => h.inRam e (List.mem_cons_of_mem _ he), ?_⟩
  have hdisk := h.onDisk
  rw [dataBytes_cons] at hdisk
  rw [sector_advance h]
  omega

theorem DataFits.offset {ramSize diskSize sector : U64} {ds : List VringDesc} (h : DataFits ramSize diskSize sector ds) :
    (sector * 512).toNat = 512 * sector.toNat := by
  have h512 : (512 : U64).toNat = 512 := rfl
  have hdisk := h.onDisk
  have hsize := diskSize.isLt
  rw [BitVec.toNat_mul, h512]
  omega

/-- The first segment passes the device's checks. -/
theorem DataFits.passes {ramSize : U64} {w : BlkWalk} {diskSize : U64} {d : VringDesc} {ds : List VringDesc}
    (h : DataFits ramSize diskSize w.hdr.sector (d :: ds)) : (w.segment d).passes diskSize ramSize = true := by
  have hdisk := h.onDisk
  have hsize := diskSize.isLt
  have hoff := h.offset
  have hnot : ¬ diskSize < w.hdr.sector * 512 + d.len.setWidth 64 := by
    rw [dataBytes_cons] at hdisk
    rw [BitVec.lt_def, BitVec.toNat_add, hoff, len_toNat]
    omega
  rw [Segment.passes_of_not_lt ramSize diskSize (w.segment d) hnot]
  exact h.inRam d (List.mem_cons_self ..)

section Data

variable (dev : VirtioDev) {ramSize : U64}

/-- The data descriptors of a request, one after the other. -/
def walkData (ramSize : U64) (w : BlkWalk) (ds : List VringDesc) : BlkWalk := ds.foldl (virtioBlkData dev ramSize) w

theorem virtioBlkData_out {w : BlkWalk} {d : VringDesc} {ds : List VringDesc} (ht : w.hdr.type = virtioBlkTOut)
    (h : DataFits ramSize dev.disk_size w.hdr.sector (d :: ds)) :
    virtioBlkData dev ramSize w d = ((w.note d).copyOut dev d).advance d := by
  have hpass : ((w.note d).segment d).passes dev.disk_size ramSize = true := h.passes
  unfold virtioBlkData
  rw [if_neg (by rw [ht]; decide), if_pos ht, virtioBlkOut_eq, hpass]
  rfl

theorem virtioBlkData_in {w : BlkWalk} {d : VringDesc} {ds : List VringDesc} (ht : w.hdr.type = virtioBlkTIn)
    (h : DataFits ramSize dev.disk_size w.hdr.sector (d :: ds)) :
    virtioBlkData dev ramSize w d = ((w.note d).copyIn d).advance d := by
  have hpass : ((w.note d).segment d).passes dev.disk_size ramSize = true := h.passes
  unfold virtioBlkData
  rw [if_pos ht, virtioBlkIn_eq, hpass]
  rfl

/-- **A write request puts byte `n` of its data at byte `n` of its sectors**, and changes no other byte of the disk. -/
theorem walkData_out : ∀ (ds : List VringDesc) (w : BlkWalk), w.hdr.type = virtioBlkTOut →
    DataFits ramSize dev.disk_size w.hdr.sector ds →
      (walkData dev ramSize w ds).mem.ram = w.mem.ram ∧ ∀ b : U64, (walkData dev ramSize w ds).mem.disk b =
        if 512 * w.hdr.sector.toNat ≤ b.toNat ∧ b.toNat < 512 * w.hdr.sector.toNat + dataBytes ds then
          guestByte w.mem.ram (dataAddr ds (b.toNat - 512 * w.hdr.sector.toNat))
        else w.mem.disk b
  | [], w, _, _ => ⟨rfl, fun b => (if_neg (by simp [dataBytes])).symm⟩
  | d :: ds, w, ht, h => by
    have hstep := virtioBlkData_out dev ht h
    have hsector := sector_advance h
    have hoff := h.offset
    obtain ⟨hram, hdisk⟩ := walkData_out ds (((w.note d).copyOut dev d).advance d) ht h.tail
    have hwalk : walkData dev ramSize w (d :: ds) = walkData dev ramSize (((w.note d).copyOut dev d).advance d) ds :=
      congrArg (walkData dev ramSize · ds) hstep
    rw [hwalk]
    refine ⟨hram, fun b => (hdisk b).trans ?_⟩
    have hnext : 512 * (((w.note d).copyOut dev d).advance d).hdr.sector.toNat =
        512 * w.hdr.sector.toNat + d.len.toNat := hsector
    have hcopy : (((w.note d).copyOut dev d).advance d).mem.disk =
        w.mem.disk.copy (w.hdr.sector * 512) w.mem.ram (d.addr - ramBase) d.len.toNat := rfl
    have hsame : (((w.note d).copyOut dev d).advance d).mem.ram = w.mem.ram := rfl
    have hfits := h.onDisk
    have hsize := dev.disk_size.isLt
    rw [hnext, hcopy, hsame, dataBytes_cons] at *
    have hdiff : (b - w.hdr.sector * 512).toNat = (2 ^ 64 - 512 * w.hdr.sector.toNat + b.toNat) % 2 ^ 64 := by
      rw [BitVec.toNat_sub, hoff]
    by_cases htail : 512 * w.hdr.sector.toNat + d.len.toNat ≤ b.toNat
    · -- behind the first buffer
      have hout : d.len.toNat ≤ (b - w.hdr.sector * 512).toNat := by
        rw [hdiff]
        omega
      rw [Mem.copy_of_le _ _ _ _ _ _ hout]
      by_cases hend : b.toNat < 512 * w.hdr.sector.toNat + d.len.toNat + dataBytes ds
      · obtain ⟨k, hk⟩ := Nat.exists_eq_add_of_le htail
        rw [if_pos ⟨htail, hend⟩, if_pos (by omega), hk, Nat.add_sub_cancel_left, Nat.add_assoc, Nat.add_sub_cancel_left,
          dataAddr_add]
      · rw [if_neg (by omega), if_neg (by omega)]
    · rw [if_neg (by omega)]
      by_cases hin : 512 * w.hdr.sector.toNat ≤ b.toNat
      · have hlt : (b - w.hdr.sector * 512).toNat < d.len.toNat := by
          rw [hdiff]
          omega
        have hbyte : b - w.hdr.sector * 512 = BitVec.ofNat 64 (b.toNat - 512 * w.hdr.sector.toNat) := by
          apply BitVec.eq_of_toNat_eq
          rw [hdiff, BitVec.toNat_ofNat]
          omega
        rw [Mem.copy_of_lt _ _ _ _ _ _ hlt, if_pos (by omega), dataAddr_lt (by omega), hbyte, add_sub_ramBase]
        rfl
      · have hout : d.len.toNat ≤ (b - w.hdr.sector * 512).toNat := by
          rw [hdiff]
          omega
        rw [Mem.copy_of_le _ _ _ _ _ _ hout, if_neg (by omega)]

/-- **A read request delivers byte `n` of its sectors at byte `n` of its data**, where no later byte of the data goes to
the same address, and writes nothing else. -/
theorem walkData_in : ∀ (ds : List VringDesc) (w : BlkWalk), w.hdr.type = virtioBlkTIn →
    DataFits ramSize dev.disk_size w.hdr.sector ds →
      (walkData dev ramSize w ds).mem.disk = w.mem.disk ∧
      (∀ a, (∀ d ∈ ds, ¬ d.InBuffer a) → guestByte (walkData dev ramSize w ds).mem.ram a = guestByte w.mem.ram a) ∧
      ∀ n, n < dataBytes ds → (∀ m, n < m → m < dataBytes ds → dataAddr ds m ≠ dataAddr ds n) →
        guestByte (walkData dev ramSize w ds).mem.ram (dataAddr ds n) =
          w.mem.disk (BitVec.ofNat 64 (512 * w.hdr.sector.toNat + n))
  | [], w, _, _ => ⟨rfl, fun _ _ => rfl, fun n hn => absurd hn (Nat.not_lt_zero n)⟩
  | d :: ds, w, ht, h => by
    have hstep := virtioBlkData_in dev ht h
    have hsector := sector_advance h
    have hoff := h.offset
    obtain ⟨hdisk, hkeep, hread⟩ := walkData_in ds (((w.note d).copyIn d).advance d) ht h.tail
    have hwalk : walkData dev ramSize w (d :: ds) = walkData dev ramSize (((w.note d).copyIn d).advance d) ds :=
      congrArg (walkData dev ramSize · ds) hstep
    rw [hwalk]
    have hnext : 512 * (((w.note d).copyIn d).advance d).hdr.sector.toNat =
        512 * w.hdr.sector.toNat + d.len.toNat := hsector
    have hcopy : (((w.note d).copyIn d).advance d).mem.ram =
        w.mem.ram.copy (d.addr - ramBase) w.mem.disk (w.hdr.sector * 512) d.len.toNat := rfl
    have hsame : (((w.note d).copyIn d).advance d).mem.disk = w.mem.disk := rfl
    rw [hcopy] at hkeep
    rw [hnext, hsame] at hread
    refine ⟨hdisk, fun a ha => ?_, fun n hn hlast => ?_⟩
    · rw [hkeep a fun e he => ha e (List.mem_cons_of_mem _ he), guestByte_copy]
      exact if_neg (ha d (List.mem_cons_self ..))
    · rw [dataBytes_cons] at hn hlast
      by_cases hfirst : n < d.len.toNat
      · -- no later buffer covers the byte, so it is as the first left it
        have hfree : ∀ e ∈ ds, ¬ e.InBuffer (dataAddr (d :: ds) n) := by
          intro e he hin
          obtain ⟨m, hm, hsame⟩ := exists_dataAddr ds e _ he hin
          refine hlast (d.len.toNat + m) (by omega) (by omega) ?_
          rw [dataAddr_add, hsame]
        rw [hkeep _ hfree, guestByte_copy, dataAddr_lt hfirst, add_sub_self]
        have hin : Within d.addr d.len.toNat (d.addr + BitVec.ofNat 64 n) := by
          unfold Within
          rw [add_sub_self, BitVec.toNat_ofNat]
          exact Nat.lt_of_le_of_lt (Nat.mod_le _ _) hfirst
        rw [if_pos hin]
        refine congrArg w.mem.disk (BitVec.eq_of_toNat_eq ?_)
        rw [BitVec.toNat_add, hoff, BitVec.toNat_ofNat, BitVec.toNat_ofNat, Nat.add_mod_mod]
      · obtain ⟨k, rfl⟩ := Nat.exists_eq_add_of_le (Nat.le_of_not_lt hfirst)
        rw [dataAddr_add, hread k (by omega) fun m hkm hm => ?_, Nat.add_assoc]
        have := hlast (d.len.toNat + m) (by omega) (by omega)
        rwa [dataAddr_add, dataAddr_add] at this

/-- A request of another type moves nothing. -/
theorem walkData_other : ∀ (ds : List VringDesc) (w : BlkWalk), ¬ w.hdr.isIo → (walkData dev ramSize w ds).mem = w.mem
  | [], _, _ => rfl
  | d :: ds, w, ht => by
    obtain ⟨hmem, hhdr, -⟩ := virtioBlkData_not_io dev ramSize w d ht
    exact (walkData_other ds (virtioBlkData dev ramSize w d) (hhdr ▸ ht)).trans hmem

theorem virtioBlkData_idx (w : BlkWalk) (i : U16) (d : VringDesc) :
    virtioBlkData dev ramSize { w with idx := i } d = { virtioBlkData dev ramSize w d with idx := i } := by
  have hin : virtioBlkIn dev ramSize ({ w with idx := i }.note d) d =
      { virtioBlkIn dev ramSize (w.note d) d with idx := i } := by
    rw [virtioBlkIn_eq, virtioBlkIn_eq]
    show (if ((w.note d).segment d).passes dev.disk_size ramSize then _ else _) = _
    split <;> rfl
  have hout : virtioBlkOut dev ramSize ({ w with idx := i }.note d) d =
      { virtioBlkOut dev ramSize (w.note d) d with idx := i } := by
    rw [virtioBlkOut_eq, virtioBlkOut_eq]
    show (if ((w.note d).segment d).passes dev.disk_size ramSize then _ else _) = _
    split <;> rfl
  unfold virtioBlkData
  dsimp only
  rw [hin, hout]
  split
  · rfl
  · split
    · rfl
    · split <;> rfl

end Data

/-! ## A well-formed request -/

section Request

variable (vq : VirtioQueue) (ramSize : U64)

def requestHdr (ram : Mem) (head : U16) : BlkReqHdr :=
  .ofBytes (guestRead ram ramSize (descAt vq ramSize ram head).addr (fun _ => 0) 0 16).1

/-- The descriptors between the first and the last. -/
def requestData (ram : Mem) (head : U16) : List VringDesc :=
  (chain vq ramSize ram vq.num.toNat head).tail.dropLast.map (descAt vq ramSize ram)

/-- The walk at the first data descriptor. -/
def walkAtData (mem : BlkMem) (head : U16) : BlkWalk :=
  { BlkWalk.start mem head with hdr := requestHdr vq ramSize mem.ram head, phase := 1 }

def statusAddr (ram : Mem) (head : U16) : U64 :=
  (descAt vq ramSize ram ((chain vq ramSize ram vq.num.toNat head).getLast?.getD head)).addr

/-- Header, data buffers of whole sectors and status byte, all in RAM and apart from the queue; a read or a write stays
on the disk. -/
structure WellFormed (diskSize : U64) (ram : Mem) (head : U16) : Prop extends RequestApart vq ramSize ram head where
  parts : ∃ data status, chain vq ramSize ram vq.num.toNat head = head :: (data ++ [status]) ∧
    (descAt vq ramSize ram status).hasNext = false
  header : 16 ≤ (descAt vq ramSize ram head).len.toNat ∧ InRam ramSize (descAt vq ramSize ram head).addr 16
  whole : ∀ d ∈ requestData vq ramSize ram head, d.len.toNat % 512 = 0
  inRam : ∀ d ∈ requestData vq ramSize ram head, InRam ramSize d.addr d.len.toNat
  statusInRam : InRam ramSize (statusAddr vq ramSize ram head) 1
  onDisk : (requestHdr vq ramSize ram head).isIo →
    512 * (requestHdr vq ramSize ram head).sector.toNat + dataBytes (requestData vq ramSize ram head) ≤ diskSize.toNat

variable (dev : VirtioDev) {vq ramSize}

theorem virtioBlkDesc_header (h : vq.LaidOut ramSize) (w : BlkWalk) (hidx : w.idx.toNat < vq.num.toNat)
    (hphase : w.phase = 0) (hnext : (descAt vq ramSize w.mem.ram w.idx).hasNext = true)
    (hlen : 16 ≤ (descAt vq ramSize w.mem.ram w.idx).len.toNat)
    (hin : InRam ramSize (descAt vq ramSize w.mem.ram w.idx).addr 16) :
    virtioBlkDesc dev vq ramSize w =
      ({ w with
         hdr := requestHdr vq ramSize w.mem.ram w.idx, phase := 1, idx := (descAt vq ramSize w.mem.ram w.idx).next },
       true) := by
  have hlong : ¬ (descAt vq ramSize w.mem.ram w.idx).len < 16 := by
    rw [BitVec.lt_def]
    exact Nat.not_lt.2 hlen
  have hread : (guestRead w.mem.ram ramSize (descAt vq ramSize w.mem.ram w.idx).addr (fun _ => 0) 0 16).2 = true := by
    rw [guestRead_snd]
    exact hin.inBounds h.ram (show _ = _ + 0 from rfl) (Nat.le_refl 16)
  rw [virtioBlkDesc_eq dev h w hidx]
  dsimp only
  rw [if_pos hphase, if_neg hlong, hread, hnext]
  rfl

theorem virtioBlkDesc_status (h : vq.LaidOut ramSize) (w : BlkWalk) (hidx : w.idx.toNat < vq.num.toNat)
    (hphase : w.phase ≠ 0) (hlast : (descAt vq ramSize w.mem.ram w.idx).hasNext = false) :
    virtioBlkDesc dev vq ramSize w = ({ w with phase := 2 }, false) := by
  rw [virtioBlkDesc_eq dev h w hidx]
  dsimp only
  rw [if_neg hphase, hlast]
  rfl

theorem chainData_whole {d : VringDesc} (h : d.len.toNat % 512 = 0) (w : BlkWalk) :
    chainData dev ramSize w d = virtioBlkData dev ramSize w d := by
  have hlen : d.len ≠ 1 := by
    intro h1
    rw [h1] at h
    exact absurd h (by decide)
  unfold chainData
  rw [decide_eq_false hlen, Bool.and_false]
  rfl

theorem chainData_ram (w : BlkWalk) (d : VringDesc) :
    SameOn (fun a => ¬ d.InBuffer a) w.mem.ram (chainData dev ramSize w d).mem.ram := by
  unfold chainData
  split
  · exact .refl _ _
  · exact virtioBlkData_ram dev w d

theorem chainData_idx (w : BlkWalk) (i : U16) (d : VringDesc) :
    chainData dev ramSize { w with idx := i } d = { chainData dev ramSize w d with idx := i } := by
  unfold chainData
  rw [virtioBlkData_idx]
  split <;> rfl

theorem foldl_chainData_idx (i : U16) : ∀ (ds : List VringDesc) (w : BlkWalk),
    (ds.foldl (chainData dev ramSize) { w with idx := i }).mem = (ds.foldl (chainData dev ramSize) w).mem
  | [], _ => rfl
  | d :: ds, w => by
    rw [List.foldl_cons, List.foldl_cons, chainData_idx]
    exact foldl_chainData_idx i ds _

theorem virtioBlkDesc_next (h : vq.LaidOut ramSize) (w : BlkWalk) (hidx : w.idx.toNat < vq.num.toNat)
    (hphase : w.phase ≠ 0) (hnext : (descAt vq ramSize w.mem.ram w.idx).hasNext = true) :
    virtioBlkDesc dev vq ramSize w =
      ({ chainData dev ramSize w (descAt vq ramSize w.mem.ram w.idx) with
         idx := (descAt vq ramSize w.mem.ram w.idx).next }, true) := by
  rw [virtioBlkDesc_eq dev h w hidx]
  unfold chainData
  dsimp only
  rw [if_neg hphase, hnext]
  simp only [Bool.not_true, Bool.false_or, if_true]
  split <;> rfl

/-- **The walk of a chain behind its header** is its descriptors one after the other. -/
theorem virtioBlkWalk_chain (h : vq.LaidOut ramSize) (status : U16) : ∀ (data : List U16) (n : Nat) (w : BlkWalk),
    w.phase ≠ 0 → chain vq ramSize w.mem.ram n w.idx = data ++ [status] → ChainApart vq ramSize w.mem.ram n w.idx →
    (descAt vq ramSize w.mem.ram status).hasNext = false →
      (virtioBlkWalk dev vq ramSize n w).mem =
          ((data.map (descAt vq ramSize w.mem.ram)).foldl (chainData dev ramSize) w).mem ∧
        (virtioBlkWalk dev vq ramSize n w).phase = 2
  | data, 0, w, _, hchain, _, _ => by
    cases data <;> cases hchain
  | [], n + 1, w, hphase, hchain, hc, hlast => by
    obtain ⟨hidx, -⟩ := hc.head
    obtain ⟨rfl, -⟩ := List.cons.inj hchain
    have hstep := virtioBlkDesc_status dev h w hidx hphase hlast
    unfold virtioBlkWalk
    rw [hstep]
    exact ⟨rfl, rfl⟩
  | i :: data, n + 1, w, hphase, hchain, hc, hlast => by
    obtain ⟨hidx, hapart⟩ := hc.head
    obtain ⟨rfl, hnext, hrest⟩ := chain_cons hchain (List.append_ne_nil_of_right_ne_nil _ (List.cons_ne_nil _ _))
    have hstep := virtioBlkDesc_next dev h w hidx hphase hnext
    have htail := hc.tail hnext
    generalize hd : descAt vq ramSize w.mem.ram w.idx = d at *
    have htable : SameOn vq.InTable w.mem.ram (chainData dev ramSize w d).mem.ram :=
      (chainData_ram dev w d).mono fun a ha hb => hapart a hb (.inl ha)
    have hmem : ∀ j, j ∈ data ++ [status] → j.toNat < vq.num.toNat := fun j hj => htail.table j (hrest ▸ hj)
    have hdesc : ∀ j, j ∈ data ++ [status] →
        descAt vq ramSize (chainData dev ramSize w d).mem.ram j = descAt vq ramSize w.mem.ram j :=
      fun j hj => descAt_congr h (hmem j hj) htable
    obtain ⟨hwalk, hdone⟩ := virtioBlkWalk_chain h status data n
      { chainData dev ramSize w d with idx := d.next }
      (chainData_phase dev hphase d) ((chain_congr h htable n _ htail.table).trans hrest)
      (htail.congr h htable)
      (by
        rw [hdesc status (List.mem_append_right _ (List.mem_singleton.2 rfl))]
        exact hlast)
    unfold virtioBlkWalk
    rw [hstep, if_pos rfl]
    refine ⟨hwalk.trans ?_, hdone⟩
    rw [foldl_chainData_idx, List.map_congr_left fun j hj => hdesc j (List.mem_append_left _ hj), List.map_cons, hd]
    rfl

/-- **The walk of a request** is that of its descriptors between the header and the status. -/
theorem virtioBlkRequest_chain (h : vq.LaidOut ramSize) {mem : BlkMem} {head : U16}
    (hc : ChainApart vq ramSize mem.ram vq.num.toNat head) {data : List U16} {status : U16}
    (hchain : chain vq ramSize mem.ram vq.num.toNat head = head :: (data ++ [status]))
    (hlast : (descAt vq ramSize mem.ram status).hasNext = false) (hlen : 16 ≤ (descAt vq ramSize mem.ram head).len.toNat)
    (hin : InRam ramSize (descAt vq ramSize mem.ram head).addr 16) :
    (virtioBlkRequest dev vq ramSize mem head).mem =
        ((data.map (descAt vq ramSize mem.ram)).foldl (chainData dev ramSize) (walkAtData vq ramSize mem head)).mem ∧
      (virtioBlkRequest dev vq ramSize mem head).phase = 2 := by
  obtain ⟨n, hn⟩ : ∃ n, vq.num.toNat = n + 1 := ⟨vq.num.toNat - 1, by have := h.num_pos; omega⟩
  unfold virtioBlkRequest
  rw [hn] at hchain hc ⊢
  obtain ⟨hidx, -⟩ := hc.head
  obtain ⟨-, hnext, hrest⟩ := chain_cons hchain (List.append_ne_nil_of_right_ne_nil _ (List.cons_ne_nil _ _))
  obtain ⟨hwalk, hdone⟩ := virtioBlkWalk_chain dev h status data n
    { walkAtData vq ramSize mem head with idx := (descAt vq ramSize mem.ram head).next }
    Nat.one_ne_zero hrest (hc.tail hnext) hlast
  unfold virtioBlkWalk
  rw [virtioBlkDesc_header dev h (.start mem head) hidx rfl hnext hlen hin, if_pos rfl]
  exact ⟨hwalk.trans (foldl_chainData_idx dev _ _ _), hdone⟩

variable {diskSize : U64}

theorem WellFormed.parts_eq {ram : Mem} {head : U16} (hw : WellFormed vq ramSize diskSize ram head) :
    ∃ data status, chain vq ramSize ram vq.num.toNat head = head :: (data ++ [status]) ∧
      (descAt vq ramSize ram status).hasNext = false ∧ requestData vq ramSize ram head = data.map (descAt vq ramSize ram) ∧
      statusAddr vq ramSize ram head = (descAt vq ramSize ram status).addr := by
  obtain ⟨data, status, hchain, hlast⟩ := hw.parts
  refine ⟨data, status, hchain, hlast, ?_, ?_⟩
  · unfold requestData
    rw [hchain, List.tail_cons, List.dropLast_concat]
  · unfold statusAddr
    rw [hchain, List.getLast?_cons, List.getLast?_concat]
    rfl

/-- **A well-formed request moves its data and ends with its status to write.** -/
theorem virtioBlkRequest_data (h : vq.LaidOut ramSize) {mem : BlkMem} {head : U16}
    (hw : WellFormed vq ramSize diskSize mem.ram head) :
    (virtioBlkRequest dev vq ramSize mem head).mem =
        (walkData dev ramSize (walkAtData vq ramSize mem head)
          (requestData vq ramSize mem.ram head)).mem ∧
      (virtioBlkRequest dev vq ramSize mem head).phase = 2 := by
  obtain ⟨data, status, hchain, hlast, hdata, -⟩ := hw.parts_eq
  have hwhole := hw.whole
  obtain ⟨hmem, hdone⟩ := virtioBlkRequest_chain dev h hw.toChainApart hchain hlast hw.header.1 hw.header.2
  rw [hdata] at hwhole ⊢
  refine ⟨hmem.trans ?_, hdone⟩
  unfold walkData
  rw [List.foldl_ext _ _ _ fun w d hd => chainData_whole dev (hwhole d hd) w]

/-- **Behind its walk a request writes the queue and its status byte only.** -/
theorem serve_request (h : vq.LaidOut ramSize) {mem : BlkMem} {head : U16} (hr : RequestApart vq ramSize mem.ram head) :
    (serve dev vq ramSize mem head).disk = (virtioBlkRequest dev vq ramSize mem head).mem.disk ∧
      ∀ a, ¬ vq.InRings a → a ≠ statusAddr vq ramSize mem.ram head →
        guestByte (serve dev vq ramSize mem head).ram a =
          guestByte (virtioBlkRequest dev vq ramSize mem head).mem.ram a := by
  refine ⟨rfl, fun a ha hstatus => ?_⟩
  have hrings := virtioBlkRequest_rings dev h mem head hr
  have htable : SameOn vq.InTable mem.ram (virtioBlkRequest dev vq ramSize mem head).mem.ram :=
    hrings.mono fun b hb => .inl hb
  obtain ⟨i, hi, hwrite⟩ := writeStatus_ram h (virtioBlkRequest dev vq ramSize mem head) head (hr.congr h htable)
  have hchain := chain_congr h htable vq.num.toNat head hr.table
  rw [hchain] at hi
  have haddr : statusAddr vq ramSize mem.ram head = (descAt vq ramSize mem.ram i).addr := by
    unfold statusAddr
    rw [hi]
    rfl
  rw [descAt_congr h (hr.table i (List.mem_of_getLast? hi)) htable, ← haddr] at hwrite
  have hkept : guestByte (writeStatus vq ramSize (virtioBlkRequest dev vq ramSize mem head) head) a =
      guestByte (virtioBlkRequest dev vq ramSize mem head).mem.ram a := by
    rw [hwrite]
    split
    · exact guestWrite_same _ _ _ _ _ _ a fun hb => hstatus (within_one hb)
    · rfl
  have hidx := (BitVec.ofNat_toNat 16 (vq.usedIdx (writeStatus vq ramSize (virtioBlkRequest dev vq ramSize mem head) head)))
  rw [BitVec.setWidth_eq] at hidx
  obtain ⟨hout, -⟩ := addUsed_adds h _ head (virtioBlkRequest dev vq ramSize mem head).total_bytes _ hidx.symm
  exact (hout a fun hu => ha (.inr (.inr hu))).trans hkept

/-- **What a served request leaves** of the disk, and of guest memory outside the queue and its status byte. -/
theorem serve_data (h : vq.LaidOut ramSize) {mem : BlkMem} {head : U16}
    (hw : WellFormed vq ramSize diskSize mem.ram head) :
    (serve dev vq ramSize mem head).disk =
        (walkData dev ramSize (walkAtData vq ramSize mem head)
          (requestData vq ramSize mem.ram head)).mem.disk ∧
      ∀ a, ¬ vq.InRings a → a ≠ statusAddr vq ramSize mem.ram head →
        guestByte (serve dev vq ramSize mem head).ram a =
          guestByte (walkData dev ramSize (walkAtData vq ramSize mem head)
            (requestData vq ramSize mem.ram head)).mem.ram a := by
  obtain ⟨hmem, -⟩ := virtioBlkRequest_data dev h hw
  rw [← hmem]
  exact serve_request dev h hw.toRequestApart

theorem WellFormed.fits (h : vq.LaidOut ramSize) {ram : Mem} {head : U16} (hw : WellFormed vq ramSize diskSize ram head)
    (hio : (requestHdr vq ramSize ram head).isIo) :
    DataFits ramSize diskSize (requestHdr vq ramSize ram head).sector (requestData vq ramSize ram head) := by
  refine ⟨hw.whole, fun d hd => ?_, hw.onDisk hio⟩
  have hend : 0 + (d.len.setWidth 64).toNat ≤ d.len.toNat := by
    rw [len_toNat]
    omega
  exact (hw.inRam d hd).inBounds h.ram (show _ = _ + 0 from rfl) hend

/-- The data is apart from the queue. -/
theorem WellFormed.data_apart {ram : Mem} {head : U16} (hw : WellFormed vq ramSize diskSize ram head) {n : Nat}
    (hn : n < dataBytes (requestData vq ramSize ram head)) :
    ¬ vq.InRings (dataAddr (requestData vq ramSize ram head) n) := by
  obtain ⟨data, status, hchain, -, hdata, -⟩ := hw.parts_eq
  obtain ⟨d, hd, hin⟩ := dataAddr_mem _ n hn
  rw [hdata] at hd
  obtain ⟨i, hi, rfl⟩ := List.mem_map.1 hd
  refine hw.buffers i ?_ _ hin
  rw [hchain]
  exact List.mem_cons_of_mem _ (List.mem_append_left _ hi)

theorem dataBytes_whole : ∀ (ds : List VringDesc), (∀ d ∈ ds, d.len.toNat % 512 = 0) → dataBytes ds % 512 = 0
  | [], _ => rfl
  | d :: ds, h => by
    have hd := h d (List.mem_cons_self ..)
    have hds := dataBytes_whole ds fun e he => h e (List.mem_cons_of_mem _ he)
    rw [dataBytes_cons]
    omega

end Request

/-! ## The array of sectors -/

section Sectors

variable (vq : VirtioQueue) (ramSize : U64)

def Completion.hdr (c : Completion) : BlkReqHdr := requestHdr vq ramSize c.before.ram c.head
def Completion.data (c : Completion) : List VringDesc := requestData vq ramSize c.before.ram c.head

/-- The request writes sector `k`. -/
def Completion.writes (c : Completion) (k : Nat) : Bool :=
  decide ((c.hdr vq ramSize).type = virtioBlkTOut) && decide ((c.hdr vq ramSize).sector.toNat ≤ k) &&
    decide (512 * (k + 1) ≤ 512 * (c.hdr vq ramSize).sector.toNat + dataBytes (c.data vq ramSize))

/-- Byte `j` of what it writes there. -/
def Completion.sectorByte (c : Completion) (k j : Nat) : U8 :=
  guestByte c.before.ram (dataAddr (c.data vq ramSize) (512 * (k - (c.hdr vq ramSize).sector.toNat) + j))

def lastWrite (done : List Completion) (k : Nat) : Option Completion := done.reverse.find? fun c => c.writes vq ramSize k

/-- Byte `j` of sector `k` once the requests are served: as the last of them that writes the sector has it, or as in the
image. -/
def sectorAfter (image : Mem) (done : List Completion) (k j : Nat) : U8 :=
  match lastWrite vq ramSize done k with
  | some c => c.sectorByte vq ramSize k j
  | none => image (BitVec.ofNat 64 (512 * k + j))

/-- A read request delivers the sectors as the requests before it have left them; a byte that the request itself writes
again, with later data or its status, is left out. -/
def Completion.Delivers (image : Mem) (before : List Completion) (c : Completion) : Prop :=
  (c.hdr vq ramSize).type = virtioBlkTIn → ∀ n, n < dataBytes (c.data vq ramSize) →
    (∀ m, n < m → m < dataBytes (c.data vq ramSize) →
      dataAddr (c.data vq ramSize) m ≠ dataAddr (c.data vq ramSize) n) →
    dataAddr (c.data vq ramSize) n ≠ statusAddr vq ramSize c.before.ram c.head →
      guestByte c.after.ram (dataAddr (c.data vq ramSize) n) =
        sectorAfter vq ramSize image before ((c.hdr vq ramSize).sector.toNat + n / 512) (n % 512)

/-- The disk is the array that the writes have made of the image, and every read has delivered from it. -/
structure SectorArray (image : Mem) (diskSize : U64) (done : List Completion) (disk : Mem) : Prop where
  reads : ∀ (i : Nat) (c : Completion), done[i]? = some c → c.Delivers vq ramSize image (done.take i)
  sectors : ∀ k j, j < 512 → 512 * (k + 1) ≤ diskSize.toNat →
    disk (BitVec.ofNat 64 (512 * k + j)) = sectorAfter vq ramSize image done k j

variable {vq ramSize} {image : Mem} {diskSize : U64}

theorem sectorAfter_concat (done : List Completion) (c : Completion) (k j : Nat) :
    sectorAfter vq ramSize image (done ++ [c]) k j =
      if c.writes vq ramSize k then c.sectorByte vq ramSize k j else sectorAfter vq ramSize image done k j := by
  unfold sectorAfter lastWrite
  rw [List.reverse_append, List.reverse_singleton, List.singleton_append, List.find?_cons]
  cases c.writes vq ramSize k <;> rfl

theorem Completion.writes_iff (c : Completion) (k : Nat) : c.writes vq ramSize k = true ↔
    (c.hdr vq ramSize).type = virtioBlkTOut ∧ (c.hdr vq ramSize).sector.toNat ≤ k ∧
      512 * (k + 1) ≤ 512 * (c.hdr vq ramSize).sector.toNat + dataBytes (c.data vq ramSize) := by
  simp [Completion.writes, and_assoc]

/-- **A served read delivers the bytes of the disk it finds.** -/
theorem serve_delivers (h : vq.LaidOut ramSize) {dev : VirtioDev} {c : Completion}
    (hw : WellFormed vq ramSize dev.disk_size c.before.ram c.head) (hafter : c.after = serve dev vq ramSize c.before c.head)
    {done : List Completion}
    (ha : ∀ k j, j < 512 → 512 * (k + 1) ≤ dev.disk_size.toNat →
      c.before.disk (BitVec.ofNat 64 (512 * k + j)) = sectorAfter vq ramSize image done k j) :
    c.Delivers vq ramSize image done := by
  intro ht n hn hlast hstatus
  obtain ⟨-, hram⟩ := serve_data dev h hw
  have hwhole := dataBytes_whole _ hw.whole
  have hfits := hw.fits h (.inl ht)
  have hend := hfits.onDisk
  obtain ⟨-, -, hread⟩ := walkData_in dev _ (walkAtData vq ramSize c.before c.head) ht hfits
  have hapart := hw.data_apart hn
  unfold Completion.hdr Completion.data at *
  rw [hafter, hram _ hapart hstatus, hread n hn hlast]
  have hbyte : 512 * (requestHdr vq ramSize c.before.ram c.head).sector.toNat + n =
      512 * ((requestHdr vq ramSize c.before.ram c.head).sector.toNat + n / 512) + n % 512 := by omega
  refine Eq.trans ?_ (ha _ _ (Nat.mod_lt n (by decide)) (by omega))
  exact congrArg (fun b => c.before.disk (BitVec.ofNat 64 b)) hbyte

/-- **A served request changes the sectors it writes**, and no other. -/
theorem serve_sector (h : vq.LaidOut ramSize) {dev : VirtioDev} {c : Completion}
    (hw : WellFormed vq ramSize dev.disk_size c.before.ram c.head) (hafter : c.after = serve dev vq ramSize c.before c.head)
    {k j : Nat} (hj : j < 512) (hk : 512 * (k + 1) ≤ dev.disk_size.toNat) :
    c.after.disk (BitVec.ofNat 64 (512 * k + j)) =
      if c.writes vq ramSize k then c.sectorByte vq ramSize k j else c.before.disk (BitVec.ofNat 64 (512 * k + j)) := by
  obtain ⟨hdisk, -⟩ := serve_data dev h hw
  have hwhole := dataBytes_whole _ hw.whole
  rw [hafter, hdisk]
  by_cases hout : (requestHdr vq ramSize c.before.ram c.head).type = virtioBlkTOut
  · have hfits := hw.fits h (.inr hout)
    obtain ⟨-, hwrite⟩ := walkData_out dev _ (walkAtData vq ramSize c.before c.head) hout hfits
    have hnat : (BitVec.ofNat 64 (512 * k + j)).toNat = 512 * k + j := by
      rw [BitVec.toNat_ofNat]
      omega
    rw [hwrite, hnat]
    have hiff : c.writes vq ramSize k = true ↔ _ := c.writes_iff k
    have hstart : (walkAtData vq ramSize c.before c.head).hdr = requestHdr vq ramSize c.before.ram c.head := rfl
    unfold Completion.sectorByte
    unfold Completion.hdr Completion.data at *
    rw [hstart]
    by_cases hin : c.writes vq ramSize k = true
    · obtain ⟨-, hlo, hhi⟩ := hiff.1 hin
      have hbyte : 512 * k + j - 512 * (requestHdr vq ramSize c.before.ram c.head).sector.toNat =
          512 * (k - (requestHdr vq ramSize c.before.ram c.head).sector.toNat) + j := by omega
      rw [if_pos hin, if_pos (by omega), hbyte]
      rfl
    · have hout' := fun hr => hin (hiff.2 ⟨hout, hr⟩)
      rw [if_neg hin, if_neg fun hr => hout' (by omega)]
      rfl
  · have hno : ¬ c.writes vq ramSize k = true := fun hk => hout (c.writes_iff k |>.1 hk).1
    rw [if_neg hno]
    by_cases hin : (requestHdr vq ramSize c.before.ram c.head).type = virtioBlkTIn
    · obtain ⟨hsame, -⟩ := walkData_in dev _ (walkAtData vq ramSize c.before c.head) hin (hw.fits h (.inl hin))
      rw [hsame]
      rfl
    · rw [walkData_other dev _ (walkAtData vq ramSize c.before c.head) fun hio => hio.elim hin hout]
      rfl

/-- **One served request keeps the array.** -/
theorem SectorArray.push (h : vq.LaidOut ramSize) {dev : VirtioDev} {done : List Completion} {c : Completion}
    (ha : SectorArray vq ramSize image dev.disk_size done c.before.disk)
    (hw : WellFormed vq ramSize dev.disk_size c.before.ram c.head)
    (hafter : c.after = serve dev vq ramSize c.before c.head) :
    SectorArray vq ramSize image dev.disk_size (done ++ [c]) c.after.disk := by
  refine ⟨fun i c' hc' => ?_, fun k j hj hk => ?_⟩
  · rcases Ring.getElem?_concat hc' with ⟨hi, hc'⟩ | ⟨rfl, rfl⟩
    · rw [List.take_append_of_le_length (Nat.le_of_lt hi)]
      exact ha.reads i c' hc'
    · rw [List.take_left]
      exact serve_delivers h hw hafter ha.sectors
  · rw [sectorAfter_concat, ← ha.sectors k j hj hk]
    exact serve_sector h hw hafter hj hk

/-- **The passes of a notify keep the array**, where each finds its request well formed. -/
theorem passes_array (h : vq.LaidOut ramSize) (dev : VirtioDev) : ∀ (heads : List U16) (done : List Completion)
    (mem : BlkMem), (∀ c ∈ passes dev vq ramSize mem heads, WellFormed vq ramSize dev.disk_size c.before.ram c.head) →
    SectorArray vq ramSize image dev.disk_size done mem.disk →
      SectorArray vq ramSize image dev.disk_size (done ++ passes dev vq ramSize mem heads)
        (heads.foldl (serve dev vq ramSize) mem).disk
  | [], done, mem, _, ha => by rwa [passes, List.append_nil]
  | head :: heads, done, mem, hw, ha => by
    obtain ⟨hhead, hheads⟩ := List.forall_mem_cons.1 hw
    have hpush := ha.push h hhead rfl
    have hrest := passes_array h dev heads _ _ hheads hpush
    rw [List.append_assoc] at hrest
    exact hrest

end Sectors

/-! ## Every run -/

section Runs

variable (qi ramSize : U64)

/-- A turn that is none of a driver, or a notify that comes to a request that is not well formed. -/
def Misuses (vq : VirtioQueue) (s : QueueSystem) : QueueEvent → Prop
  | .drive ram heads => ¬ Publishes ramSize vq s ram heads
  | .notify => ¬ ∀ c ∈ virtioBlkQueueTrace s.dev ramSize (qi.setWidth 32) s.mem,
      WellFormed vq ramSize s.dev.disk_size c.before.ram c.head

/-- The requests are served in the order they were published, and the disk is an array of sectors to them. -/
structure DiskServes (vq : VirtioQueue) (image : Mem) (diskSize : U64) (s : QueueSystem) : Prop where
  order : s.done.map Completion.head <+: s.published
  array : SectorArray vq ramSize image diskSize s.done s.mem.disk

/-- What the runs keep. -/
structure ArrayOk (vq : VirtioQueue) (image : Mem) (diskSize : U64) (s : QueueSystem) : Prop where
  queue : QueueOk qi ramSize vq s
  size : s.dev.disk_size = diskSize
  array : SectorArray vq ramSize image diskSize s.done s.mem.disk

variable {qi ramSize} [NetDevice]

theorem ArrayOk.step {vq : VirtioQueue} {image : Mem} {diskSize : U64} (hq : vq.LaidOut ramSize) (hqi : qi < 4)
    (hready : vq.ready ≠ 0) (s : QueueSystem) (e : QueueEvent) (h : ArrayOk qi ramSize vq image diskSize s)
    (he : ¬ Misuses qi ramSize vq s e) : ArrayOk qi ramSize vq image diskSize (s.step qi ramSize e) := by
  cases e with
  | drive ram heads => exact ⟨h.queue.drive hq (not_not.1 he), h.size, h.array⟩
  | notify =>
    obtain ⟨hmem, hdone, -, -⟩ := h.queue.notify_eq hq hqi hready
    have hwell := not_not.1 he
    have htrace : virtioBlkQueueTrace s.dev ramSize (qi.setWidth 32) s.mem = passes s.dev vq ramSize s.mem s.pending :=
      List.append_cancel_left hdone
    rw [htrace] at hwell
    obtain ⟨-, hsize⟩ := virtioMmioStore_sameDisk ramSize s.dev h.queue.blk 0x050 qi s.mem
    obtain rfl := h.size
    refine ⟨(h.queue.notify hq hqi hready).1, hsize, ?_⟩
    rw [hmem, hdone]
    exact passes_array hq s.dev s.pending s.done s.mem hwell h.array

/-- **Every read request delivers what the last write before it put in its sectors**, in every run of a driver that
publishes well-formed requests, and a notify leaves no request unserved. -/
theorem diskServes_of_driven (dev : VirtioDev) (mem : BlkMem) (hready : QueueReady qi ramSize dev mem.ram)
    (evs : List QueueEvent) (hdriven : Runs.Avoids (QueueSystem.step qi ramSize)
      (Misuses qi ramSize (dev.queues (qi.setWidth 32))) (.start dev mem) evs) :
    Runs.Along (QueueSystem.step qi ramSize)
        (DiskServes ramSize (dev.queues (qi.setWidth 32)) mem.disk dev.disk_size) (.start dev mem) evs ∧
      ∀ pre, pre ++ [.notify] <+: evs →
        ((QueueSystem.start dev mem).run qi ramSize (pre ++ [.notify])).done.map Completion.head =
          ((QueueSystem.start dev mem).run qi ramSize (pre ++ [.notify])).published := by
  have hstart : ArrayOk qi ramSize (dev.queues (qi.setWidth 32)) mem.disk dev.disk_size (.start dev mem) :=
    ⟨.start hready, rfl, fun i c hc => (by cases hc), fun k j _ _ => rfl⟩
  have hok := Runs.along_of_avoids (ArrayOk.step hready.laidOut hready.index hready.ready) hstart hdriven
  refine ⟨hok.mono fun s hs => ⟨hs.queue.order, hs.array⟩, fun pre hpre => ?_⟩
  have hbefore := hok pre ((List.prefix_append _ _).trans hpre)
  unfold QueueSystem.run
  rw [List.foldl_append]
  exact (hbefore.queue.notify hready.laidOut hready.index hready.ready).2

end Runs

/-! ## A write of sector 0 and a read of it -/

section Driver

local instance arrayNet : NetDevice := NetDevice.silent

/-- Header, one data buffer and status, in the free part of their page. -/
theorem FreeRequest.wellFormed {ram : Mem} {x d s : U16} (h : FreeRequest ram x [x, d, s])
    (hlast : (descAt (oneQueueDev.queues 0) 0x10000 ram s).hasNext = false)
    (hheader : (descAt (oneQueueDev.queues 0) 0x10000 ram x).len = 16)
    (hwhole : (descAt (oneQueueDev.queues 0) 0x10000 ram d).len.toNat % 512 = 0)
    (hdisk : 512 * (requestHdr (oneQueueDev.queues 0) 0x10000 ram x).sector.toNat +
      (descAt (oneQueueDev.queues 0) 0x10000 ram d).len.toNat ≤ 4096) :
    WellFormed (oneQueueDev.queues 0) 0x10000 oneQueueDev.disk_size ram x := by
  have hdata : requestData (oneQueueDev.queues 0) 0x10000 ram x = [descAt (oneQueueDev.queues 0) 0x10000 ram d] := by
    unfold requestData
    rw [h.1]
    rfl
  have hstatus : statusAddr (oneQueueDev.queues 0) 0x10000 ram x = (descAt (oneQueueDev.queues 0) 0x10000 ram s).addr := by
    unfold statusAddr
    rw [h.1]
    rfl
  have hin : ∀ i ∈ [x, d, s], InRam 0x10000 (descAt (oneQueueDev.queues 0) 0x10000 ram i).addr
      (max 1 (descAt (oneQueueDev.queues 0) 0x10000 ram i).len.toNat) := by
    intro i hi
    obtain ⟨-, hlo, hhi⟩ := h.2 i hi
    have hb : ramBase.toNat = 0x80000000 := rfl
    have hs : (0x10000 : U64).toNat = 0x10000 := rfl
    exact ⟨by omega, by omega⟩
  have hsmaller : ∀ {a : U64} {n m : Nat}, m ≤ n → InRam 0x10000 a n → InRam 0x10000 a m := fun hle ha =>
    ⟨ha.1, Nat.le_trans (Nat.add_le_add_left hle _) ha.2⟩
  refine { h.apart with
    parts := ⟨[d], s, h.1, hlast⟩, header := ?_, whole := ?_, inRam := ?_, statusInRam := ?_, onDisk := ?_ }
  · have hlen : (descAt (oneQueueDev.queues 0) 0x10000 ram x).len.toNat = 16 := by rw [hheader]; rfl
    exact ⟨hlen.ge, hsmaller (by omega) (hin x (List.mem_cons_self ..))⟩
  · rw [hdata]
    exact List.forall_mem_singleton.2 hwhole
  · rw [hdata]
    exact List.forall_mem_singleton.2 (hsmaller (Nat.le_max_right _ _) (hin d (by simp)))
  · rw [hstatus]
    exact hsmaller (Nat.le_max_left _ _) (hin s (by simp))
  · intro _
    rw [hdata]
    exact hdisk

theorem oneRequest_data : requestData (oneQueueDev.queues 0) 0x10000 publishedRam 0 =
    [descAt (oneQueueDev.queues 0) 0x10000 publishedRam 1] := by
  unfold requestData
  rw [oneRequest_chain]
  rfl

theorem oneRequest_statusAddr : statusAddr (oneQueueDev.queues 0) 0x10000 publishedRam 0 = 0x80000400 := by
  unfold statusAddr
  rw [oneRequest_chain]
  exact oneRequest_desc2.1

theorem oneRequest_wellFormed : WellFormed (oneQueueDev.queues 0) 0x10000 oneQueueDev.disk_size publishedRam 0 := by
  have hfree : FreeRequest publishedRam 0 [0, 1, 2] := by decide +kernel
  exact hfree.wellFormed (by decide +kernel) (by decide +kernel) (by decide +kernel) (by decide +kernel)

/-- The write alone is published. -/
def writeBatch : Mem := (twoRequests.ram.write 0x804 2 0).write 0x802 2 1

def writeServed : QueueSystem := (QueueSystem.start oneQueueDev twoRequests).run 0 0x10000 [.drive writeBatch [0], .notify]

/-- Then the read. -/
def readBatch : Mem := writeServed.leave ((writeBatch.write 0x806 2 3).write 0x802 2 2)

def writeThenRead : List QueueEvent := [.drive writeBatch [0], .notify, .drive readBatch [3], .notify]

theorem writeBatch_free : FreeRequest writeBatch 0 [0, 1, 2] := by decide +kernel

theorem readBatch_free : FreeRequest readBatch 3 [3, 4, 5] := by decide +kernel

theorem writeBatch_published : Publishes 0x10000 (oneQueueDev.queues 0) (.start oneQueueDev twoRequests) writeBatch [0] := by
  refine ⟨by decide +kernel, fun i x _ hx => ?_, by decide, ?_, List.forall_mem_singleton.2 writeBatch_free.apart⟩
  · cases i with
    | zero =>
      obtain rfl : (0 : U16) = x := Option.some.inj hx
      decide +kernel
    | succ i => cases hx
  · exact (write_used _ _ (by decide)).trans (write_used _ _ (by decide))

theorem readBatch_published : Publishes 0x10000 (oneQueueDev.queues 0) writeServed readBatch [3] := by
  have hpublished : writeServed.published = [0] := rfl
  have hdone : writeServed.done.length = 1 := by decide +kernel
  refine ⟨?_, fun i x hi hx => ?_, ?_, leave_used _ _, ?_⟩
  · rw [hpublished]
    decide +kernel
  · rw [hdone] at hi
    rw [hpublished] at hx
    rcases i with _ | _ | i
    · omega
    · obtain rfl : (3 : U16) = x := Option.some.inj hx
      decide +kernel
    · cases hx
  · rw [hpublished, hdone]
    decide
  · rw [hpublished, hdone]
    exact List.forall_mem_singleton.2 readBatch_free.apart

/-- A notify with one head pending, whose request is well formed. -/
theorem not_misuses_one {s : QueueSystem} {x : U16} (hok : QueueOk 0 0x10000 (oneQueueDev.queues 0) s)
    (hpending : s.pending = [x]) (hsize : s.dev.disk_size = oneQueueDev.disk_size)
    (hwell : WellFormed (oneQueueDev.queues 0) 0x10000 oneQueueDev.disk_size s.mem.ram x) :
    ¬ Misuses 0 0x10000 (oneQueueDev.queues 0) s .notify := by
  obtain ⟨-, hdone, -⟩ := hok.notify_eq oneQueue_ready.laidOut (by decide) (by decide)
  have htrace := List.append_cancel_left hdone
  refine not_not.2 fun c hc => ?_
  rw [htrace, hpending] at hc
  obtain rfl := List.mem_singleton.1 hc
  rw [hsize]
  exact hwell

theorem diskServes_writeThenRead :
    Runs.Along (QueueSystem.step 0 0x10000) (DiskServes 0x10000 (oneQueueDev.queues 0) twoRequests.disk 4096)
        (.start oneQueueDev twoRequests) writeThenRead ∧
      ∀ pre, pre ++ [.notify] <+: writeThenRead →
        ((QueueSystem.start oneQueueDev twoRequests).run 0 0x10000 (pre ++ [.notify])).done.map Completion.head =
          ((QueueSystem.start oneQueueDev twoRequests).run 0 0x10000 (pre ++ [.notify])).published := by
  refine diskServes_of_driven oneQueueDev twoRequests twoRequests_ready writeThenRead ?_
  have hwrite := QueueOk.drive oneQueue_ready.laidOut (.start twoRequests_ready) writeBatch_published
  have hserved : QueueOk 0 0x10000 (oneQueueDev.queues 0) writeServed :=
    (hwrite.notify oneQueue_ready.laidOut (by decide) (by decide)).1
  have hread := QueueOk.drive oneQueue_ready.laidOut hserved readBatch_published
  refine (Runs.avoids_cons _ _).2 ⟨not_not.2 writeBatch_published, (Runs.avoids_cons _ _).2 ⟨?_, ?_⟩⟩
  · exact not_misuses_one hwrite rfl rfl
      (writeBatch_free.wellFormed (by decide +kernel) (by decide +kernel) (by decide +kernel) (by decide +kernel))
  refine (Runs.avoids_cons _ _).2 ⟨not_not.2 readBatch_published, (Runs.avoids_cons _ _).2 ⟨?_, Runs.avoids_nil⟩⟩
  have hpending : (writeServed.step 0 0x10000 (.drive readBatch [3])).pending = [3] := by
    have hdone : writeServed.done.length = 1 := by decide +kernel
    show ([0] ++ [3] : List U16).drop writeServed.done.length = [3]
    rw [hdone]
    rfl
  exact not_misuses_one hread hpending (by decide +kernel)
    (readBatch_free.wellFormed (by decide +kernel) (by decide +kernel) (by decide +kernel) (by decide +kernel))

end Driver

end PgLinux
