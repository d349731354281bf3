import PgLinux.DiskArray
/-!
# ScatterGather — the data of a request over its buffers

The walk keeps its place on the disk in whole sectors: after a buffer it goes on at the last sector boundary before what
it has not copied.  A request whose buffers end inside sectors therefore never gets to the end of its range.
-/
namespace PgLinux

/-! ## The rule -/

section Rule

variable (dev : VirtioDev) (vq : VirtioQueue) (ramSize : U64)

/-- A read or write request of whole sectors on the disk: header, data buffers of any size, status byte; all in RAM,
apart from the queue, and the status byte apart from the data. -/
structure WholeRequest (diskSize : U64) (ram : Mem) (head : U16) : Prop extends RequestApart vq ramSize ram head where
  io : (requestHdr vq ramSize ram head).isIo
  parts : ∃ data status, chain vq ramSize ram vq.num.toNat head = head :: (data ++ [status]) ∧
    (descAt vq ramSize ram status).hasNext = false
  header : 16 ≤ (descAt vq ramSize ram head).len.toNat ∧ InRam ramSize (descAt vq ramSize ram head).addr 16
  nonzero : ∀ d ∈ requestData vq ramSize ram head, 0 < d.len.toNat
  total : dataBytes (requestData vq ramSize ram head) % 512 = 0
  inRam : ∀ d ∈ requestData vq ramSize ram head, InRam ramSize d.addr d.len.toNat
  statusInRam : InRam ramSize (statusAddr vq ramSize ram head) 1
  statusApart : ∀ d ∈ requestData vq ramSize ram head, ¬ d.InBuffer (statusAddr vq ramSize ram head)
  onDisk : 512 * (requestHdr vq ramSize ram head).sector.toNat + dataBytes (requestData vq ramSize ram head) ≤
    diskSize.toNat

/-- Byte `n` of the data is byte `n` of the range: a read delivers it there, unless a later byte of the data has the
same address, and a write puts the whole data on the disk and nothing else. -/
structure CopiesRange (mem : BlkMem) (head : U16) : Prop where
  read : (requestHdr vq ramSize mem.ram head).type = virtioBlkTIn →
    ∀ n, n < dataBytes (requestData vq ramSize mem.ram head) →
      (∀ m, n < m → m < dataBytes (requestData vq ramSize mem.ram head) →
        dataAddr (requestData vq ramSize mem.ram head) m ≠ dataAddr (requestData vq ramSize mem.ram head) n) →
      guestByte (serve dev vq ramSize mem head).ram (dataAddr (requestData vq ramSize mem.ram head) n) =
        mem.disk (BitVec.ofNat 64 (512 * (requestHdr vq ramSize mem.ram head).sector.toNat + n))
  write : (requestHdr vq ramSize mem.ram head).type = virtioBlkTOut →
    ∀ b : U64, (serve dev vq ramSize mem head).disk b =
      if 512 * (requestHdr vq ramSize mem.ram head).sector.toNat ≤ b.toNat ∧
          b.toNat < 512 * (requestHdr vq ramSize mem.ram head).sector.toNat +
            dataBytes (requestData vq ramSize mem.ram head) then
        guestByte mem.ram (dataAddr (requestData vq ramSize mem.ram head)
          (b.toNat - 512 * (requestHdr vq ramSize mem.ram head).sector.toNat))
      else mem.disk b

/-- The chain in `ram` copies its range, whatever the disk holds. -/
def Transfers (ram : Mem) (head : U16) : Prop := ∀ mem : BlkMem, mem.ram = ram → CopiesRange dev vq ramSize mem head

end Rule

/-! ## Where the walk puts the buffers -/

/-- The first disk byte of each buffer. -/
def placed : Nat → List VringDesc → List (Nat × VringDesc)
  | _, [] => []
  | sector, d :: ds => (512 * sector, d) :: placed (sector + d.len.toNat / 512) ds

theorem placed_below : ∀ (ds : List VringDesc) (sector : Nat), ∀ p ∈ placed sector ds,
    p.1 + p.2.len.toNat ≤ 512 * sector + dataBytes ds
  | [], _, p, hp => absurd hp List.not_mem_nil
  | d :: ds, sector, p, hp => by
    rw [dataBytes_cons]
    rcases List.mem_cons.1 hp with rfl | hp
    · dsimp only
      omega
    · have hrest := placed_below ds (sector + d.len.toNat / 512) p hp
      omega

theorem dataBytes_pos {ds : List VringDesc} (hne : ds ≠ []) (h : ∀ d ∈ ds, 0 < d.len.toNat) : 0 < dataBytes ds := by
  cases ds with
  | nil => exact absurd rfl hne
  | cons d ds =>
    have hd := h d (List.mem_cons_self ..)
    rw [dataBytes_cons]
    omega

/-- **A request with a buffer that is no whole number of sectors stops short of its last byte.** -/
theorem placed_short : ∀ (ds : List VringDesc) (sector : Nat), (∀ d ∈ ds, 0 < d.len.toNat) → dataBytes ds % 512 = 0 →
    (∃ d ∈ ds, d.len.toNat % 512 ≠ 0) → ∀ p ∈ placed sector ds, p.1 + p.2.len.toNat < 512 * sector + dataBytes ds
  | [], _, _, _, ⟨_, hd, _⟩, _, _ => absurd hd List.not_mem_nil
  | d :: ds, sector, hpos, htotal, hpart, p, hp => by
    rw [dataBytes_cons] at htotal ⊢
    have hds : ∀ e ∈ ds, 0 < e.len.toNat := fun e he => hpos e (List.mem_cons_of_mem _ he)
    by_cases hd : d.len.toNat % 512 = 0
    · -- a later buffer is the partial one
      have hrest : ∃ e ∈ ds, e.len.toNat % 512 ≠ 0 := by
        obtain ⟨e, he, hne⟩ := hpart
        rcases List.mem_cons.1 he with rfl | he
        · exact absurd hd hne
        · exact ⟨e, he, hne⟩
      have hsome : 0 < dataBytes ds := by
        obtain ⟨e, he, -⟩ := hrest
        exact dataBytes_pos (List.ne_nil_of_mem he) hds
      rcases List.mem_cons.1 hp with rfl | hp
      · dsimp only
        omega
      · have hshort := placed_short ds (sector + d.len.toNat / 512) hds (by omega) hrest p hp
        omega
    · rcases List.mem_cons.1 hp with rfl | hp
      · dsimp only
        omega
      · have hbelow := placed_below ds (sector + d.len.toNat / 512) p hp
        omega

/-! ## One descriptor -/

section Walk

variable (dev : VirtioDev) {ramSize : U64}

/-- A walk at sector `sector` has room for the data that is left. -/
def Room (diskSize sector : U64) (ds : List VringDesc) : Prop := 512 * sector.toNat + dataBytes ds ≤ diskSize.toNat

theorem Room.offset {diskSize sector : U64} {ds : List VringDesc} (h : Room diskSize sector ds) :
    (sector * 512).toNat = 512 * sector.toNat := by
  have h512 : (512 : U64).toNat = 512 := rfl
  have hsize := diskSize.isLt
  unfold Room at h
  rw [BitVec.toNat_mul, h512]
  omega

theorem Room.sector {diskSize sector : U64} {d : VringDesc} {ds : List VringDesc} (h : Room diskSize sector (d :: ds)) :
    (sector + (d.len / 512).setWidth 64).toNat = sector.toNat + d.len.toNat / 512 := by
  have h512 : (512 : U32).toNat = 512 := rfl
  have hsize := diskSize.isLt
  have hlen := d.len.isLt
  unfold Room at h
  rw [dataBytes_cons] at h
  rw [BitVec.toNat_add, BitVec.toNat_setWidth, BitVec.toNat_udiv, h512]
  omega

theorem Room.tail {diskSize sector : U64} {d : VringDesc} {ds : List VringDesc} (h : Room diskSize sector (d :: ds)) :
    Room diskSize (sector + (d.len / 512).setWidth 64) ds := by
  have hsector := h.sector
  unfold Room at h ⊢
  rw [dataBytes_cons] at h
  rw [hsector]
  omega

theorem chainData_in {w : BlkWalk} (ht : w.hdr.type = virtioBlkTIn) (d : VringDesc) :
    (chainData dev ramSize w d).mem.disk = w.mem.disk := by
  unfold chainData
  split
  · rfl
  unfold virtioBlkData
  rw [if_pos ht, virtioBlkIn_eq]
  split <;> rfl

/-- **A write descriptor changes no disk byte outside its place.** -/
theorem chainData_disk {w : BlkWalk} {d : VringDesc} {ds : List VringDesc}
    (hroom : Room dev.disk_size w.hdr.sector (d :: ds)) {b : U64}
    (hb : ¬ (512 * w.hdr.sector.toNat ≤ b.toNat ∧ b.toNat < 512 * w.hdr.sector.toNat + d.len.toNat)) :
    (chainData dev ramSize w d).mem.disk b = w.mem.disk b := by
  have hoff := hroom.offset
  unfold Room at hroom
  rw [dataBytes_cons] at hroom
  have hsize := dev.disk_size.isLt
  refine chainData_keeps fun _ _ _ => ?_
  rw [BitVec.toNat_sub, hoff]
  omega

/-- **A read descriptor depends on no disk byte outside its place.** -/
theorem chainData_withDisk {w : BlkWalk} (ht : w.hdr.type = virtioBlkTIn) {d : VringDesc} {ds : List VringDesc}
    (hroom : Room dev.disk_size w.hdr.sector (d :: ds)) {disk : Mem}
    (hdisk : ∀ b : U64, 512 * w.hdr.sector.toNat ≤ b.toNat ∧ b.toNat < 512 * w.hdr.sector.toNat + d.len.toNat →
      disk b = w.mem.disk b) :
    chainData dev ramSize (w.withDisk disk) d = (chainData dev ramSize w d).withDisk disk := by
  have hoff := hroom.offset
  unfold Room at hroom
  rw [dataBytes_cons] at hroom
  have hsize := dev.disk_size.isLt
  obtain ⟨disk', h⟩ := @chainData_ignores dev ramSize w d disk fun _ _ _ b hb => hdisk b (by
    rw [BitVec.toNat_sub, hoff] at hb
    omega)
  have hsame : (w.withDisk disk).mem.disk = disk' := by
    rw [← chainData_in dev (show (w.withDisk disk).hdr.type = virtioBlkTIn from ht) d, h]
    rfl
  rw [h, ← hsame]
  rfl

/-! ## The walk -/

/-- **A write request changes no disk byte outside the places of its buffers.** -/
theorem walk_disk : ∀ (ds : List VringDesc) (w : BlkWalk), w.hdr.type = virtioBlkTOut →
    Room dev.disk_size w.hdr.sector ds →
    ∀ b : U64, (∀ p ∈ placed w.hdr.sector.toNat ds, ¬ (p.1 ≤ b.toNat ∧ b.toNat < p.1 + p.2.len.toNat)) →
      (ds.foldl (chainData dev ramSize) w).mem.disk b = w.mem.disk b
  | [], _, _, _, _, _ => rfl
  | d :: ds, w, ht, hroom, b, hb => by
    have hhdr : (chainData dev ramSize w d).hdr = _ := chainData_hdr dev (.inr ht) d
    have hrest : ∀ p ∈ placed (chainData dev ramSize w d).hdr.sector.toNat ds,
        ¬ (p.1 ≤ b.toNat ∧ b.toNat < p.1 + p.2.len.toNat) := by
      rw [hhdr]
      dsimp only
      rw [hroom.sector]
      exact fun p hp => hb p (List.mem_cons_of_mem _ hp)
    rw [List.foldl_cons, walk_disk ds _ (hhdr ▸ ht) (hhdr ▸ hroom.tail) b hrest,
      chainData_disk dev hroom (hb _ (List.mem_cons_self ..))]

/-- **What a read request delivers depends on no disk byte outside the places of its buffers.** -/
theorem walk_ram : ∀ (ds : List VringDesc) (w : BlkWalk), w.hdr.type = virtioBlkTIn →
    Room dev.disk_size w.hdr.sector ds →
    ∀ disk : Mem, (∀ b : U64, (∃ p ∈ placed w.hdr.sector.toNat ds, p.1 ≤ b.toNat ∧ b.toNat < p.1 + p.2.len.toNat) →
        disk b = w.mem.disk b) →
      (ds.foldl (chainData dev ramSize) (w.withDisk disk)).mem.ram = (ds.foldl (chainData dev ramSize) w).mem.ram
  | [], _, _, _, _, _ => rfl
  | d :: ds, w, ht, hroom, disk, hdisk => by
    have hhdr : (chainData dev ramSize w d).hdr = _ := chainData_hdr dev (.inl ht) d
    have hrest : ∀ b : U64, (∃ p ∈ placed (chainData dev ramSize w d).hdr.sector.toNat ds,
        p.1 ≤ b.toNat ∧ b.toNat < p.1 + p.2.len.toNat) → disk b = (chainData dev ramSize w d).mem.disk b := by
      rw [hhdr, chainData_in dev ht]
      dsimp only
      rw [hroom.sector]
      rintro b ⟨p, hp, hb⟩
      exact hdisk b ⟨p, List.mem_cons_of_mem _ hp, hb⟩
    have hstep : chainData dev ramSize (w.withDisk disk) d = _ :=
      chainData_withDisk dev ht hroom fun b hb => hdisk b ⟨_, List.mem_cons_self .., hb⟩
    rw [List.foldl_cons, List.foldl_cons, hstep]
    exact walk_ram ds _ (hhdr ▸ ht) (hhdr ▸ hroom.tail) disk hrest

end Walk

/-! ## Requests -/

section Requests

variable {dev : VirtioDev} {vq : VirtioQueue} {ramSize : U64} {ram : Mem} {head : U16}

theorem WholeRequest.wellFormed (hw : WholeRequest vq ramSize dev.disk_size ram head)
    (hwhole : ∀ d ∈ requestData vq ramSize ram head, d.len.toNat % 512 = 0) :
    WellFormed vq ramSize dev.disk_size ram head :=
  { hw.toRequestApart with
    parts := hw.parts, header := hw.header, whole := hwhole, inRam := hw.inRam, statusInRam := hw.statusInRam
    onDisk := fun _ => hw.onDisk }

/-- The walk of such a request. -/
theorem WholeRequest.walk (h : vq.LaidOut ramSize) {mem : BlkMem}
    (hw : WholeRequest vq ramSize dev.disk_size mem.ram head) :
    (virtioBlkRequest dev vq ramSize mem head).mem =
      ((requestData vq ramSize mem.ram head).foldl (chainData dev ramSize) (walkAtData vq ramSize mem head)).mem := by
  obtain ⟨data, status, hchain, hlast⟩ := hw.parts
  have hdata : requestData vq ramSize mem.ram head = data.map (descAt vq ramSize mem.ram) := by
    unfold requestData
    rw [hchain, List.tail_cons, List.dropLast_concat]
  rw [hdata]
  exact (virtioBlkRequest_chain dev h hw.toChainApart hchain hlast hw.header.1 hw.header.2).1

/-- No byte of the data is the status byte or in the queue. -/
theorem WholeRequest.data_apart (hw : WholeRequest vq ramSize dev.disk_size ram head) {n : Nat}
    (hn : n < dataBytes (requestData vq ramSize ram head)) :
    ¬ vq.InRings (dataAddr (requestData vq ramSize ram head) n) ∧
      dataAddr (requestData vq ramSize ram head) n ≠ statusAddr vq ramSize ram head := by
  obtain ⟨d, hd, hin⟩ := dataAddr_mem _ n hn
  refine ⟨?_, fun heq => hw.statusApart d hd (heq ▸ hin)⟩
  unfold requestData at hd
  obtain ⟨i, hi, rfl⟩ := List.mem_map.1 hd
  exact hw.buffers i (List.mem_of_mem_tail (List.dropLast_subset _ hi)) _ hin

/-- Buffers of whole sectors are copied to and from their range. -/
theorem transfers_whole (h : vq.LaidOut ramSize) (hw : WholeRequest vq ramSize dev.disk_size ram head)
    (hwhole : ∀ d ∈ requestData vq ramSize ram head, d.len.toNat % 512 = 0) : Transfers dev vq ramSize ram head := by
  rintro mem rfl
  have hwell := hw.wellFormed hwhole
  have hfits := hwell.fits h hw.io
  obtain ⟨hdisk, hram⟩ := serve_data dev h hwell
  refine ⟨fun ht n hn hlast => ?_, fun ht b => ?_⟩
  · obtain ⟨-, -, hread⟩ := walkData_in dev _ (walkAtData vq ramSize mem head) ht hfits
    obtain ⟨hrings, hstatus⟩ := hw.data_apart hn
    rw [hram _ hrings hstatus, hread n hn hlast]
    rfl
  · obtain ⟨-, hwrite⟩ := walkData_out dev _ (walkAtData vq ramSize mem head) ht hfits
    rw [hdisk, hwrite]
    rfl

section Part

variable (h : vq.LaidOut ramSize) (hpart : ∃ d ∈ requestData vq ramSize ram head, d.len.toNat % 512 ≠ 0)

/-- The last byte of the range. -/
def lastByte (vq : VirtioQueue) (ramSize : U64) (ram : Mem) (head : U16) : Nat :=
  512 * (requestHdr vq ramSize ram head).sector.toNat + dataBytes (requestData vq ramSize ram head) - 1

include hpart

theorem WholeRequest.data_pos (hw : WholeRequest vq ramSize dev.disk_size ram head) :
    0 < dataBytes (requestData vq ramSize ram head) := by
  obtain ⟨d, hd, -⟩ := hpart
  exact dataBytes_pos (List.ne_nil_of_mem hd) hw.nonzero

theorem WholeRequest.placed_lt (hw : WholeRequest vq ramSize dev.disk_size ram head) :
    ∀ p ∈ placed (requestHdr vq ramSize ram head).sector.toNat (requestData vq ramSize ram head),
      p.1 + p.2.len.toNat ≤ lastByte vq ramSize ram head := by
  intro p hp
  have hshort := placed_short _ _ hw.nonzero hw.total hpart p hp
  unfold lastByte
  omega

include h

/-- A write with a buffer that is no whole number of sectors keeps the last byte of its range. -/
theorem serve_keeps_last {mem : BlkMem} (hram : mem.ram = ram) (hw : WholeRequest vq ramSize dev.disk_size ram head)
    (ht : (requestHdr vq ramSize ram head).type = virtioBlkTOut) {b : U64}
    (hb : b.toNat = lastByte vq ramSize ram head) :
    (serve dev vq ramSize mem head).disk b = mem.disk b := by
  subst hram
  rw [(serve_request dev h hw.toRequestApart).1, hw.walk h]
  refine walk_disk dev _ (walkAtData vq ramSize mem head) ht hw.onDisk b fun p hp hin => ?_
  have hlt : p.1 + p.2.len.toNat ≤ _ := hw.placed_lt hpart p hp
  omega

/-- A read with such a buffer delivers the same, whatever that byte is. -/
theorem serve_ignores_last {mem : BlkMem} (hram : mem.ram = ram) (hw : WholeRequest vq ramSize dev.disk_size ram head)
    (ht : (requestHdr vq ramSize ram head).type = virtioBlkTIn) {disk : Mem}
    (hdisk : ∀ b : U64, b.toNat < lastByte vq ramSize ram head → disk b = mem.disk b) {a : U64} (ha : ¬ vq.InRings a)
    (hstatus : a ≠ statusAddr vq ramSize ram head) :
    guestByte (serve dev vq ramSize { mem with disk := disk } head).ram a =
      guestByte (serve dev vq ramSize mem head).ram a := by
  subst hram
  have hserve : ∀ disk : Mem, guestByte (serve dev vq ramSize { mem with disk := disk } head).ram a =
      guestByte ((requestData vq ramSize mem.ram head).foldl (chainData dev ramSize)
        (walkAtData vq ramSize { mem with disk := disk } head)).mem.ram a := by
    intro disk
    have hw' : WholeRequest vq ramSize dev.disk_size { mem with disk := disk }.ram head := hw
    rw [(serve_request dev h hw'.toRequestApart).2 a ha hstatus, hw'.walk h]
  rw [hserve disk, hserve mem.disk]
  refine congrArg (guestByte · a) (walk_ram dev _ (walkAtData vq ramSize mem head) ht hw.onDisk disk ?_)
  rintro b ⟨p, hp, -, hb⟩
  exact hdisk b (Nat.lt_of_lt_of_le hb (hw.placed_lt hpart p hp))

/-- Either way there is a disk for which the last byte of the range is wrong. -/
theorem not_transfers_part (hw : WholeRequest vq ramSize dev.disk_size ram head) :
    ¬ Transfers dev vq ramSize ram head := by
  intro htransfers
  have hsize := dev.disk_size.isLt
  have hdisk := hw.onDisk
  obtain ⟨n, hn⟩ : ∃ n, dataBytes (requestData vq ramSize ram head) = n + 1 :=
    Nat.exists_eq_add_one.2 (hw.data_pos hpart)
  have hlast : lastByte vq ramSize ram head = 512 * (requestHdr vq ramSize ram head).sector.toNat + n := by
    unfold lastByte
    omega
  have hbyte : (BitVec.ofNat 64 (lastByte vq ramSize ram head)).toNat = lastByte vq ramSize ram head := by
    rw [hlast, BitVec.toNat_ofNat]
    omega
  rcases hw.io with ht | ht
  · -- two disks that differ from the last byte on give the same read
    have hlt : n < dataBytes (requestData vq ramSize ram head) := by omega
    have hfinal : ∀ m, n < m → m < dataBytes (requestData vq ramSize ram head) →
        dataAddr (requestData vq ramSize ram head) m ≠ dataAddr (requestData vq ramSize ram head) n := by
      intro m hm hm'
      omega
    have hcopy : ∀ disk : Mem, guestByte (serve dev vq ramSize ⟨ram, disk, none, [], ⟨0, 0⟩⟩ head).ram
        (dataAddr (requestData vq ramSize ram head) n) = disk (BitVec.ofNat 64 (lastByte vq ramSize ram head)) := by
      intro disk
      rw [hlast]
      exact (htransfers ⟨ram, disk, none, [], ⟨0, 0⟩⟩ rfl).read ht n hlt hfinal
    obtain ⟨hrings, hstatus⟩ := hw.data_apart hlt
    have hsame := serve_ignores_last h hpart (show (BlkMem.mk ram (fun _ => 0) none [] ⟨0, 0⟩).ram = ram from rfl) hw ht
      (show ∀ b : U64, b.toNat < lastByte vq ramSize ram head →
        (if b.toNat < lastByte vq ramSize ram head then 0 else 1 : U8) = 0 from fun b hb => if_pos hb) hrings hstatus
    have hone := hcopy fun b => if b.toNat < lastByte vq ramSize ram head then 0 else 1
    rw [hbyte, if_neg (Nat.lt_irrefl _)] at hone
    exact absurd (hone.symm.trans (hsame.trans (hcopy fun _ => 0))) (by decide)
  · -- a disk whose bytes all differ from the last byte of the data
    have hcopy : ∀ x : U8, (serve dev vq ramSize ⟨ram, fun _ => x, none, [], ⟨0, 0⟩⟩ head).disk
        (BitVec.ofNat 64 (lastByte vq ramSize ram head)) =
          guestByte ram (dataAddr (requestData vq ramSize ram head) n) := by
      intro x
      have hwrite := (htransfers ⟨ram, fun _ => x, none, [], ⟨0, 0⟩⟩ rfl).write ht
        (BitVec.ofNat 64 (lastByte vq ramSize ram head))
      dsimp only at hwrite
      rw [hwrite, hbyte, if_pos (by omega), hlast, Nat.add_sub_cancel_left]
    have hkeep : ∀ x : U8, (serve dev vq ramSize ⟨ram, fun _ => x, none, [], ⟨0, 0⟩⟩ head).disk
        (BitVec.ofNat 64 (lastByte vq ramSize ram head)) = x := fun _ => serve_keeps_last h hpart rfl hw ht hbyte
    have hzero := (hkeep 0).symm.trans (hcopy 0)
    have hone := (hkeep 1).symm.trans (hcopy 1)
    exact absurd (hzero.trans hone.symm) (by decide)

end Part

/-- **A request copies its range, whatever the disk holds, exactly when each of its buffers is a whole number of
sectors.** -/
theorem transfers_iff (h : vq.LaidOut ramSize) (hw : WholeRequest vq ramSize dev.disk_size ram head) :
    Transfers dev vq ramSize ram head ↔ ∀ d ∈ requestData vq ramSize ram head, d.len.toNat % 512 = 0 := by
  refine ⟨fun ht d hd => ?_, transfers_whole h hw⟩
  by_contra hpart
  exact not_transfers_part h ⟨d, hd, hpart⟩ hw ht

end Requests

/-! ## A sector in two halves -/

theorem oneRequest_whole : WholeRequest (oneQueueDev.queues 0) 0x10000 oneQueueDev.disk_size publishedRam 0 :=
  { oneRequest_wellFormed with
    io := .inl (by decide +kernel)
    nonzero := by
      rw [oneRequest_data]
      exact List.forall_mem_singleton.2 (by decide +kernel)
    total := by
      rw [oneRequest_data]
      decide +kernel
    statusApart := by
      rw [oneRequest_data, oneRequest_statusAddr]
      exact List.forall_mem_singleton.2 (by unfold VringDesc.InBuffer; decide +kernel)
    onDisk := oneRequest_wellFormed.onDisk (.inl (by decide +kernel)) }

theorem transfers_oneRequest : Transfers oneQueueDev (oneQueueDev.queues 0) 0x10000 publishedRam 0 ↔
    ∀ d ∈ requestData (oneQueueDev.queues 0) 0x10000 publishedRam 0, d.len.toNat % 512 = 0 :=
  transfers_iff oneQueue_ready.laidOut oneRequest_whole

/-- The request of `publishedRam` with its sector in two buffers of 256 bytes. -/
def splitRam : Mem :=
  let half := ((publishedRam.write 0x18 4 256).write 0x1C 2 3).write 0x1E 2 3
  (((half.write 0x30 8 0x80000300).write 0x38 4 256).write 0x3C 2 3).write 0x3E 2 2

theorem splitRequest_chain :
    chain (oneQueueDev.queues 0) 0x10000 splitRam (oneQueueDev.queues 0).num.toNat 0 = [0, 1, 3, 2] := by decide +kernel

theorem splitRequest_desc0 : (descAt (oneQueueDev.queues 0) 0x10000 splitRam 0).addr = 0x80000100 ∧
    (descAt (oneQueueDev.queues 0) 0x10000 splitRam 0).len = 16 := by decide +kernel

theorem splitRequest_desc1 : (descAt (oneQueueDev.queues 0) 0x10000 splitRam 1).addr = 0x80000200 ∧
    (descAt (oneQueueDev.queues 0) 0x10000 splitRam 1).len = 256 := by decide +kernel

theorem splitRequest_desc3 : (descAt (oneQueueDev.queues 0) 0x10000 splitRam 3).addr = 0x80000300 ∧
    (descAt (oneQueueDev.queues 0) 0x10000 splitRam 3).len = 256 := by decide +kernel

theorem splitRequest_desc2 : (descAt (oneQueueDev.queues 0) 0x10000 splitRam 2).addr = 0x80000400 ∧
    (descAt (oneQueueDev.queues 0) 0x10000 splitRam 2).len = 1 := by decide +kernel

theorem splitRequest_data : requestData (oneQueueDev.queues 0) 0x10000 splitRam 0 =
    [descAt (oneQueueDev.queues 0) 0x10000 splitRam 1, descAt (oneQueueDev.queues 0) 0x10000 splitRam 3] := by
  unfold requestData
  rw [splitRequest_chain]
  rfl

theorem splitRequest_statusAddr : statusAddr (oneQueueDev.queues 0) 0x10000 splitRam 0 = 0x80000400 := by
  unfold statusAddr
  rw [splitRequest_chain]
  exact splitRequest_desc2.1

/-- The driver's side of it is in order. -/
theorem splitRequest_whole : WholeRequest (oneQueueDev.queues 0) 0x10000 oneQueueDev.disk_size splitRam 0 where
  toRequestApart :=
    have hfree : FreeRequest splitRam 0 [0, 1, 3, 2] := by decide +kernel
    hfree.apart
  io := .inl (by decide +kernel)
  parts := ⟨[1, 3], 2, splitRequest_chain, by decide +kernel⟩
  header := by
    rw [splitRequest_desc0.1, splitRequest_desc0.2]
    unfold InRam
    decide
  nonzero := by
    rw [splitRequest_data]
    simp only [List.forall_mem_cons, splitRequest_desc1, splitRequest_desc3, List.not_mem_nil, false_imp_iff,
      implies_true]
    decide
  total := by
    rw [splitRequest_data]
    decide +kernel
  inRam := by
    rw [splitRequest_data]
    simp only [List.forall_mem_cons, splitRequest_desc1, splitRequest_desc3, List.not_mem_nil, false_imp_iff,
      implies_true]
    unfold InRam
    decide
  statusInRam := by
    rw [splitRequest_statusAddr]
    unfold InRam
    decide
  statusApart := by
    rw [splitRequest_data, splitRequest_statusAddr]
    unfold VringDesc.InBuffer
    simp only [List.forall_mem_cons, splitRequest_desc1, splitRequest_desc3, List.not_mem_nil, false_imp_iff,
      implies_true]
    decide
  onDisk := by
    rw [splitRequest_data]
    decide +kernel

/-- Its second half gets the first half of the sector again. -/
theorem not_transfers_split : WholeRequest (oneQueueDev.queues 0) 0x10000 oneQueueDev.disk_size splitRam 0 ∧
    ¬ Transfers oneQueueDev (oneQueueDev.queues 0) 0x10000 splitRam 0 := by
  have hpart : ∃ d ∈ requestData (oneQueueDev.queues 0) 0x10000 splitRam 0, d.len.toNat % 512 ≠ 0 := by
    refine ⟨descAt (oneQueueDev.queues 0) 0x10000 splitRam 3, ?_, ?_⟩
    · rw [splitRequest_data]
      exact List.mem_cons_of_mem _ (List.mem_singleton_self _)
    · rw [splitRequest_desc3.2]
      decide
  exact ⟨splitRequest_whole, not_transfers_part oneQueue_ready.laidOut hpart splitRequest_whole⟩

end PgLinux
