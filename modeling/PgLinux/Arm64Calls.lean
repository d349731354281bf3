import PgLinux.Arm64Code
import PgLinux.FaultAddress
/-!
# Arm64Calls — compiled loads and stores with the helpers they call (`rv64_jit_load`, `rv64_jit_store`)

A helper works on the CPU in memory and on the devices behind it, of which the compiled code sees nothing.  What it answers
is what `rv64_cpu_load` and `cpu_store` do; a loaded value goes to the address in x3.
-/
namespace PgLinux
namespace Arm64

open CpuLayout (cpuFields offExec)
open A64 (Finishes Goes Keeps Lands Reg State decode decodeOp run)

/-! ## What compiled code does not see -/

/-- The CPU without its registers, its pc, its TLB and guest RAM. -/
def hidden (c : Cpu) : Cpu :=
  { c with
    x := fun _ => 0
    pc := 0
    tlb := .zero
    bus := { c.bus with mem := { c.bus.mem with ram := fun p => if p < c.ram_size then 0 else c.bus.mem.ram p } } }

theorem hidden_writeRam {c : Cpu} {p : U64} {n : Nat} (hn : p.toNat + n ≤ c.ram_size.toNat) (v : U64) :
    hidden (c.writeRam p n v) = hidden c := by
  have hram : (fun q => if q < c.ram_size then 0 else (c.bus.mem.ram.write p n v) q) =
      fun q => if q < c.ram_size then 0 else c.bus.mem.ram q := by
    funext q
    by_cases hq : q < c.ram_size
    · rw [if_pos hq, if_pos hq]
    · rw [if_neg hq, if_neg hq]
      refine Mem.write_of_le _ _ _ _ _ (Nat.not_lt.1 fun hin => hq ?_)
      have hlt := c.ram_size.isLt
      have hback : q = p + (q - p) := by rw [BitVec.add_comm, BitVec.sub_add_cancel]
      rw [hback, BitVec.lt_def, BitVec.toNat_add]
      omega
  unfold hidden Cpu.writeRam
  dsimp only
  rw [hram]

theorem hidden_plain (t : GuestInsn) (c : Cpu) : hidden (armPlain t c) = hidden c := by
  unfold armPlain
  split <;> rfl

theorem hidden_branch (t : GuestInsn) (c : Cpu) : hidden (armBranch t c) = hidden c := by
  unfold armBranch
  split <;> rfl

/-! ## The helpers -/

section Helpers

variable [NetDevice] (h : Helpers) (e : Place) (c : Cpu) (s : State) (w' : Cpu) (t : State)

/-- A helper has left the CPU `c` and answered `exc`; of the block's bytes it has written at most those that `written`
tells. -/
structure Answered (exc : U64) (written : U64 → Prop) : Prop where
  world : w' = hidden c
  rep : Represents e.base e.ram t.mem c
  exc : t.getW 0 = exc.setWidth 32
  bytes : ∀ a, Guarded e a → ¬ written a → t.mem a = s.mem a

/-- The eight bytes from `a` on. -/
def DwordAt (a b : U64) : Prop := ∃ k, k < 8 ∧ b = byteAt a k

/-- `rv64_jit_load(x0, x1, w2, x3)`. -/
def LoadCall : Prop :=
  match rv64CpuLoad (s.x 1) (s.getW 2).toNat .read c with
  | .ok v c' => Answered e c' s w' t 0 (DwordAt (s.x 3)) ∧ t.mem.read (s.x 3) 8 = v
  | .error exc c' => Answered e c' s w' t exc fun _ => False

/-- `rv64_jit_store(x0, x1, w2, x3)`. -/
def StoreCall : Prop :=
  match cpuStore (s.x 1) (s.getW 2).toNat (s.x 3) c with
  | .ok _ c' => Answered e c' s w' t 0 fun _ => False
  | .error exc c' => Answered e c' s w' t exc fun _ => False

end Helpers

/-- What a call does, with `w` behind the code.  The pointers of the TLB lead into RAM, as they do before every call: so a
NULL is told from them, and the CPU is the one in memory (`Represents.unique`). -/
structure HelperCall [NetDevice] (h : Helpers) (e : Place) (w : Cpu) (target : U64) (s : State) (w' : Cpu) (t : State) :
    Prop where
  kept : Kept s t
  load : target = h.fn_load → ∀ c, hidden c = w → PagesIn c → Represents e.base e.ram s.mem c → s.x 0 = e.base →
    LoadCall e c s w' t
  store : target = h.fn_store → ∀ c, hidden c = w → PagesIn c → Represents e.base e.ram s.mem c → s.x 0 = e.base →
    StoreCall e c s w' t

/-! ## The CPU in memory -/

section Unique

variable {ram ramSize a : U64} {m : Mem} {te te' : TlbEntry} {e : Place} {c c' : Cpu}

/-- The pointers are told from each other and from NULL. -/
theorem hostPointer_inj (hnull : ∀ p, p < ramSize → ram + p ≠ 0) {o o' : Option U64}
    (ho : ∀ b, o = some b → b.toNat + 4096 ≤ ramSize.toNat) (ho' : ∀ b, o' = some b → b.toNat + 4096 ≤ ramSize.toNat)
    (h : hostPointer ram o = hostPointer ram o') : o = o' := by
  have hsome : ∀ {q : Option U64} {b : U64}, (∀ b, q = some b → b.toNat + 4096 ≤ ramSize.toNat) → q = some b →
      ram + b ≠ 0 := by
    intro q b hq hb
    have hin := hq b hb
    exact hnull b (BitVec.lt_def.2 (by omega))
  cases o with
  | none =>
    cases o' with
    | none => rfl
    | some b => exact absurd h.symm (hsome ho' rfl)
  | some b =>
    cases o' with
    | none => exact absurd h (hsome ho rfl)
    | some b' => exact congrArg some ((BitVec.add_right_inj ram).1 h)

theorem flagByte_inj : ∀ {b b' : Bool}, flagByte b = flagByte b' → b = b' := by decide

theorem EntryAt.unique (hnull : ∀ p, p < ramSize → ram + p ≠ 0)
    (ho : ∀ b, te.host_base = some b → b.toNat + 4096 ≤ ramSize.toNat)
    (ho' : ∀ b, te'.host_base = some b → b.toNat + 4096 ≤ ramSize.toNat) (h : EntryAt ram m a te) (h' : EntryAt ram m a te') :
    te = te' := by
  have hvpn := h.vpn.symm.trans h'.vpn
  have hppn := h.ppn.symm.trans h'.ppn
  have hhost := hostPointer_inj hnull ho ho' (h.host_base.symm.trans h'.host_base)
  have hperm := h.perm.symm.trans h'.perm
  have hlevel := h.level.symm.trans h'.level
  have hdirty := flagByte_inj (h.dirty.symm.trans h'.dirty)
  have hvalid := flagByte_inj (h.valid.symm.trans h'.valid)
  cases te
  cases te'
  simp_all

/-- A CPU is what is hidden of it and what is in memory. -/
theorem eq_of_hidden (hw : hidden c = hidden c') (hx : c.x = c'.x) (hpc : c.pc = c'.pc) (htlb : c.tlb = c'.tlb)
    (hram : c.bus.mem.ram = c'.bus.mem.ram) : c = c' := by
  have hback : ∀ d : Cpu, d = { hidden d with
      x := d.x, pc := d.pc, tlb := d.tlb,
      bus := { (hidden d).bus with mem := { (hidden d).bus.mem with ram := d.bus.mem.ram } } } := fun _ => rfl
  rw [hback c, hback c', hw, hx, hpc, htlb, hram]

/-- **No two CPUs are in one memory** with the same behind it. -/
theorem Represents.unique (hnull : ∀ p, p < c.ram_size → e.ram + p ≠ 0) (h : Represents e.base e.ram m c)
    (h' : Represents e.base e.ram m c') (hpages : PagesIn c) (hpages' : PagesIn c') (hw : hidden c = hidden c') : c = c' := by
  have hsize : c.ram_size = c'.ram_size := by
    show (hidden c).ram_size = (hidden c').ram_size
    rw [hw]
  refine eq_of_hidden hw (funext fun i => (h.x i).symm.trans (h'.x i)) (h.pc.symm.trans h'.pc) (funext fun i => ?_)
    (funext fun p => ?_)
  · refine EntryAt.unique hnull (hpages i) ?_ (h.tlb i) (h'.tlb i)
    rw [hsize]
    exact hpages' i
  · by_cases hp : p < c.ram_size
    · exact (h.ram p hp).symm.trans (h'.ram p (hsize ▸ hp))
    · have hout : ∀ d : Cpu, ¬ p < d.ram_size → (hidden d).bus.mem.ram p = d.bus.mem.ram p := fun d hd => if_neg hd
      rw [← hout c hp, ← hout c' (hsize ▸ hp), hw]

end Unique

/-! ## Every call has an answer -/

section Answers

/-- The bytes of the entry `te`. -/
def entryByte (ram : U64) (te : TlbEntry) (k : Nat) : U8 :=
  if k < 8 then byteOf te.vpn k
  else if k < 16 then byteOf te.ppn (k - 8)
  else if k < 24 then byteOf (hostPointer ram te.host_base) (k - 16)
  else if k = 24 then te.perm
  else if k = 25 then te.level
  else if k = 26 then flagByte te.dirty
  else flagByte te.valid

/-- The memory `m` with the TLB and the RAM of `c`. -/
def putGuest (e : Place) (c : Cpu) (m : Mem) : Mem := fun a =>
  let n := (a - byteAt e.base (entryOff 0)).toNat
  if a - e.ram < c.ram_size then c.bus.mem.ram (a - e.ram)
  else if n < 32 * 4096 then entryByte e.ram (c.tlb (BitVec.ofNat 12 (n / 32))) (n % 32)
  else m a

variable {e : Place} {c c' : Cpu} {m : Mem} {s : State} {a : U64}

theorem read_of_bytes {v : U64} (h : ∀ k, k < 8 → m (byteAt a k) = byteOf v k) : m.read a 8 = v := by
  refine Eq.trans (Mem.read_congr 8 a fun k hk => ?_) (Mem.read_dword m a v)
  have hoff : (a + BitVec.ofNat 64 k - a).toNat = k := by
    rw [add_sub_self, BitVec.toNat_ofNat]
    omega
  rw [Mem.write_of_lt _ _ _ _ _ (by omega), hoff]
  exact h k hk

theorem entryAt_of_bytes {ram : U64} {te : TlbEntry} (h : ∀ k, k < 32 → m (byteAt a k) = entryByte ram te k) :
    EntryAt ram m a te := by
  obtain ⟨hvpn, hppn, hhost, hperm, hlevel, hdirty, hvalid⟩ := tlbEntry_offsets
  have hfield : ∀ o, o + 8 ≤ 24 → ∀ v, (∀ k, k < 8 → entryByte ram te (o + k) = byteOf v k) → m.read (byteAt a o) 8 = v := by
    intro o ho v hv
    refine read_of_bytes fun k hk => ?_
    rw [byteAt_byteAt, h _ (by omega)]
    exact hv k hk
  constructor
  · rw [hvpn]
    refine hfield 0 (by omega) _ fun k hk => ?_
    rw [Nat.zero_add, entryByte, if_pos hk]
  · rw [hppn]
    refine hfield 8 (by omega) _ fun k hk => ?_
    rw [entryByte, if_neg (by omega), if_pos (by omega), Nat.add_sub_cancel_left]
  · rw [hhost]
    refine hfield 16 (by omega) _ fun k hk => ?_
    rw [entryByte, if_neg (by omega), if_neg (by omega), if_pos (by omega), Nat.add_sub_cancel_left]
  · rw [hperm, h _ (by omega)]
    rfl
  · rw [hlevel, h _ (by omega)]
    rfl
  · rw [hdirty, h _ (by omega)]
    rfl
  · rw [hvalid, h _ (by omega)]
    rfl

theorem putGuest_ram {p : U64} (hp : p < c.ram_size) : putGuest e c m (e.ram + p) = c.bus.mem.ram p := by
  have hoff : e.ram + p - e.ram = p := by rw [BitVec.add_comm, BitVec.add_sub_cancel]
  unfold putGuest
  dsimp only
  rw [hoff, if_pos hp]

/-- An address that is not in RAM. -/
theorem not_inRam_of_ne (h : ∀ p, p < c.ram_size → a ≠ e.ram + p) : ¬ a - e.ram < c.ram_size := by
  intro hlt
  refine h _ hlt ?_
  rw [BitVec.add_comm, BitVec.sub_add_cancel]

theorem putGuest_entry (hsep : Separate e c.ram_size) (i : BitVec 12) {k : Nat} (hk : k < 32) :
    putGuest e c m (byteAt (byteAt e.base (entryOff i)) k) = entryByte e.ram (c.tlb i) k := by
  have hoff := entryOff_eq i
  have hzero := entryOff_eq 0
  have hlt := i.isLt
  have hle := le_offExec
  have hn : (byteAt (byteAt e.base (entryOff i)) k - byteAt e.base (entryOff 0)).toNat = 32 * i.toNat + k := by
    rw [byteAt_byteAt, hoff, hzero]
    unfold byteAt
    bv_omega
  have hdiv : (32 * i.toNat + k) / 32 = i.toNat := by omega
  have hmod : (32 * i.toNat + k) % 32 = k := by omega
  unfold putGuest
  dsimp only
  rw [hn, hdiv, hmod, if_neg, if_pos (by omega), BitVec.ofNat_toNat, BitVec.setWidth_eq]
  refine not_inRam_of_ne fun p hp => ?_
  rw [byteAt_byteAt]
  exact hsep.cpu_ram _ p (by omega) hp

/-- Outside RAM and the TLB nothing is put. -/
theorem putGuest_other (hram : ∀ p, p < c.ram_size → a ≠ e.ram + p)
    (htlb : ∀ k, k < 32 * 4096 → a ≠ byteAt e.base (888 + k)) : putGuest e c m a = m a := by
  unfold putGuest
  dsimp only
  rw [if_neg (not_inRam_of_ne hram), if_neg]
  intro hlt
  refine htlb _ hlt ?_
  have hzero : entryOff 0 = 888 := entryOff_eq 0
  rw [← byteAt_byteAt, ← hzero]
  unfold byteAt
  rw [BitVec.ofNat_toNat, BitVec.setWidth_eq, BitVec.add_comm, BitVec.sub_add_cancel]

/-- A byte of the structure that is not in the TLB. -/
theorem putGuest_cpu (hsep : Separate e c.ram_size) {n : Nat} (hn : n < 888 ∨ 131960 ≤ n) (hlt : n < offExec + 8) :
    putGuest e c m (byteAt e.base n) = m (byteAt e.base n) := by
  have hmax := offExec_lt
  refine putGuest_other (fun p hp => hsep.cpu_ram n p hlt hp) fun k hk => ?_
  unfold byteAt
  bv_omega

theorem putGuest_guarded (hsep : Separate e c.ram_size) (ha : Guarded e a) : putGuest e c m a = m a := by
  have hle := le_offExec
  rcases ha with ⟨k, hk, rfl⟩ | ⟨o, ho, k, hk, rfl⟩
  · exact putGuest_other (fun p hp => hsep.frame_ram k p hk hp) fun n hn => hsep.frame_cpu k _ hk (by omega)
  · have hoff := mem_counterOffs ho
    exact putGuest_cpu hsep (by omega) (by omega)

/-- **The memory that an access leaves.** -/
theorem represents_putGuest (hsep : Separate e c.ram_size) (hrep : Represents e.base e.ram m c) (hframe : AccessFrame c c') :
    Represents e.base e.ram (putGuest e c' m) c' := by
  obtain ⟨tlb, bus, dbg, rfl⟩ := hframe
  have hle := le_offExec
  have hsep' : Separate e ({ c with tlb := tlb, bus := bus, dbg := dbg } : Cpu).ram_size := hsep
  generalize hc' : ({ c with tlb := tlb, bus := bus, dbg := dbg } : Cpu) = c' at hsep' ⊢
  have hlow : ∀ o, o ≤ 256 → (putGuest e c' m).read (byteAt e.base o) 8 = m.read (byteAt e.base o) 8 := fun o ho =>
    read_byteAt fun k _ hk => putGuest_cpu hsep' (by omega) (by omega)
  refine ⟨fun i => ?_, ?_, fun i => entryAt_of_bytes fun k hk => putGuest_entry hsep' i hk, fun p hp => putGuest_ram hp⟩
  · have hoff := regOff_eq i
    have hi := i.isLt
    rw [hlow _ (by omega), ← hc']
    exact hrep.x i
  · have hoff := offsetOf_pc
    rw [hlow _ (by omega), ← hc']
    exact hrep.pc

/-- A value in the slot is no part of the CPU. -/
theorem Represents.writeSlot (hsep : Separate e c.ram_size) (hrep : Represents e.base e.ram m c) (v : U64) :
    Represents e.base e.ram (m.write e.sp 8 v) c := by
  have hle := le_offExec
  have hout : ∀ b, (∀ k, k < 48 → byteAt e.sp k ≠ b) → (m.write e.sp 8 v) b = m b := by
    intro b hb
    refine Mem.write_of_le _ _ _ _ _ (Nat.not_lt.1 fun hin => hb (b - e.sp).toNat (by omega) ?_)
    unfold byteAt
    rw [BitVec.ofNat_toNat, BitVec.setWidth_eq, BitVec.add_comm, BitVec.sub_add_cancel]
  have hcpu : ∀ n, n < offExec → (m.write e.sp 8 v) (byteAt e.base n) = m (byteAt e.base n) := fun n hn =>
    hout _ fun k hk => hsep.frame_cpu k n hk (by omega)
  refine ⟨fun i => ?_, ?_, fun i => (hrep.tlb i).same fun k hk => ?_, fun p hp => ?_⟩
  · have hoff := regOff_eq i
    have hi := i.isLt
    rw [read_byteAt fun k _ hk => hcpu k (by omega)]
    exact hrep.x i
  · have hoff := offsetOf_pc
    rw [read_byteAt fun k _ hk => hcpu k (by omega)]
    exact hrep.pc
  · have hoff := entryOff_eq i
    have hi := i.isLt
    rw [byteAt_byteAt]
    exact hcpu _ (by omega)
  · rw [hout _ fun k hk => hsep.frame_ram k p hk hp]
    exact hrep.ram p hp

/-- The machine after a helper that has left the memory `m`. -/
def answered (s : State) (exc : U64) (m : Mem) : State := { s.set 0 exc with mem := m }

theorem kept_answered (s : State) (exc : U64) (m : Mem) : Kept s (answered s exc m) := by
  have hset := kept_set (r := 0) (by decide) s exc
  exact ⟨hset.x, hset.sp⟩

theorem answered_guest (hsep : Separate e c.ram_size) (hrep : Represents e.base e.ram s.mem c) (hframe : AccessFrame c c')
    (exc : U64) (written : U64 → Prop) :
    Answered e c' s (hidden c') (answered s exc (putGuest e c' s.mem)) exc written := by
  have hsep' : Separate e c'.ram_size := by
    obtain ⟨tlb, bus, dbg, rfl⟩ := hframe
    exact hsep
  exact ⟨rfl, represents_putGuest hsep hrep hframe, rfl, fun a ha _ => putGuest_guarded hsep' ha⟩

variable [NetDevice] {h : Helpers} {target : U64}

theorem exists_loadCall (hsep : Separate e c.ram_size) (hrep : Represents e.base e.ram s.mem c) (hslot : s.x 3 = e.sp) :
    ∃ w' t, Kept s t ∧ LoadCall e c s w' t := by
  have hframe := rv64CpuLoad_frame (s.x 1) (s.getW 2).toNat .read c
  unfold LoadCall
  cases hrun : rv64CpuLoad (s.x 1) (s.getW 2).toNat .read c with
  | error exc c' =>
    rw [hrun] at hframe
    exact ⟨_, _, kept_answered s exc _, answered_guest hsep hrep hframe exc _⟩
  | ok v c' =>
    rw [hrun] at hframe
    have hans := answered_guest hsep hrep hframe 0 (DwordAt e.sp)
    have hsep' : Separate e c'.ram_size := by
      obtain ⟨tlb, bus, dbg, rfl⟩ : AccessFrame c c' := hframe
      exact hsep
    refine ⟨hidden c', answered s 0 ((putGuest e c' s.mem).write e.sp 8 v), kept_answered s 0 _, ?_, ?_⟩
    · rw [hslot]
      refine ⟨hans.world, hans.rep.writeSlot hsep' v, rfl, fun a ha hout => ?_⟩
      refine Eq.trans (Mem.write_of_le _ _ _ _ _ (Nat.not_lt.1 fun hin => hout ⟨_, hin, ?_⟩)) (hans.bytes a ha hout)
      unfold byteAt
      rw [BitVec.ofNat_toNat, BitVec.setWidth_eq, BitVec.add_comm, BitVec.sub_add_cancel]
    · rw [hslot]
      exact Mem.read_dword _ _ _

theorem exists_storeCall (hsep : Separate e c.ram_size) (hrep : Represents e.base e.ram s.mem c) :
    ∃ w' t, Kept s t ∧ StoreCall e c s w' t := by
  have hframe := cpuStore_frame (s.x 1) (s.getW 2).toNat (s.x 3) c
  unfold StoreCall
  cases hrun : cpuStore (s.x 1) (s.getW 2).toNat (s.x 3) c with
  | ok _ c' | error _ c' =>
    rw [hrun] at hframe
    exact ⟨_, _, kept_answered s _ _, answered_guest hsep hrep hframe _ _⟩

/-- **Every call that a block makes has an answer.** -/
theorem exists_helperCall (hfn : h.fn_load ≠ h.fn_store) (hsep : Separate e c.ram_size) (hpages : PagesIn c)
    (hrep : Represents e.base e.ram s.mem c) (hslot : target = h.fn_load → s.x 3 = e.sp) :
    ∃ w' t, HelperCall h e (hidden c) target s w' t := by
  have hone : ∀ d, hidden d = hidden c → PagesIn d → Represents e.base e.ram s.mem d → d = c := by
    intro d hw hd hrep'
    exact (Represents.unique hsep.nonNull hrep hrep' hpages hd hw.symm).symm
  by_cases hload : target = h.fn_load
  · obtain ⟨w', t, hkept, hcall⟩ := exists_loadCall hsep hrep (hslot hload)
    refine ⟨w', t, hkept, fun _ d hw hd hrep' _ => ?_, fun hstore => absurd (hload.symm.trans hstore) hfn⟩
    rw [hone d hw hd hrep']
    exact hcall
  · obtain ⟨w', t, hkept, hcall⟩ := exists_storeCall hsep hrep
    refine ⟨w', t, hkept, fun hload' => absurd hload' hload, fun _ d hw hd hrep' _ => ?_⟩
    rw [hone d hw hd hrep']
    exact hcall

end Answers

/-! ## Up to the access -/

section Access

variable {e : Place} {c : Cpu} {s : State} {va : U64} {size : Nat}

/-- The machine of a block, with the address of an access in x1. -/
structure AtAccess (e : Place) (va : U64) (c : Cpu) (s0 s : State) : Prop where
  ready : Ready e.base e.ram va c s
  steady : Steady e s0 s

theorem AtAccess.keeps {s0 s' : State} {rs : List Reg} (h : AtAccess e va c s0 s) (hk : Keeps rs s s') (h1 : 1 ∉ rs)
    (hrs : ∀ r ∈ rs, r.toNat < 19) : AtAccess e va c s0 s' :=
  ⟨h.ready.keeps hk h1 fun h19 => absurd (hrs 19 h19) (by decide),
    h.steady.trans (steady_of_mem (.of_keeps hk hrs) hk.mem)⟩

/-- **The code before an access** writes the pc and makes the address. -/
theorem goes_address (hsep : Separate e c.ram_size) (hp : Placed e.base e.ram c) (hcpu : s.x 19 = e.base)
    (hrep : Represents e.base e.ram s.mem c) (pc : U64) (v : BitVec 12) (rs1 : BitVec 5) :
    ∃ s', Goes (addressWords pc v rs1) s s' ∧ AtAccess e (c.x rs1 + v.signExtend 64) { c with pc := pc } s s' := by
  obtain ⟨s1, hgo, hsteady, hrep1⟩ := does_storePc hsep hp pc s hcpu hrep
  have hcpu1 : s1.x 19 = e.base := (hsteady.kept.x 19 (by decide)).trans hcpu
  have hbase : Goes (loadGuest 1 rs1) s1 (s1.set 1 (c.x rs1)) :=
    goes_loadGuest (r := 1) hrep1 hp.zero hcpu1 (.inr (.inl rfl)) rs1
  have hadd := (straight_addSimm v (s1.set 1 (c.x rs1))).goes
  have hall := hgo.lands (hbase.lands hadd)
  rw [List.append_assoc] at hall
  have hkeeps : Keeps [1] s1 ((s1.set 1 (c.x rs1)).set 1 (c.x rs1 + v.signExtend 64)) :=
    (A64.keeps_set (by decide) (by decide)).set (by decide) (by decide)
  exact ⟨_, hall, ⟨(hkeeps.x 19 (by decide)).trans hcpu1, rfl, hkeeps.mem ▸ hrep1⟩,
    hsteady.trans (steady_of_mem (.of_keeps hkeeps (by decide)) hkeeps.mem)⟩

/-- A fast path without the access and the jump at its end. -/
def fastChecks (store : Bool) (t : U32) (size : Nat) : List U32 :=
  let s := slowOff store size
  probeWords (bcondWord condNE (s - 7)) (cbzWord 8 (s - 9)) ++
    (dirtyWords store (cbzWord 10 (s - 11)) ++ (andImmWord 9 1 12 :: pageWords t size (bcondWord condHI 3)))

theorem fastPath_eq (store : Bool) (t : U32) (size : Nat) (access b : U32) :
    fastPath store t size access b = fastChecks store t size ++ [access, b] := by
  unfold fastPath fastWords fastChecks
  simp only [List.append_assoc, List.cons_append]

theorem mem_scratch_lt : ∀ r ∈ scratch, r.toNat < 19 := by decide

/-- **A fast path that hits** comes to its access. -/
theorem goes_fastHit {s0 : State} (store : Bool) (h : AtAccess e va c s0 s) (hp : Placed e.base e.ram c) {t : Reg}
    (ht : t = 10 ∨ t = 11) (h1 : 1 ≤ size) (h16 : size < 16) (hhit : inlineHits store (c.tlbEntry va) va size = true) :
    ∃ s', (AtAccess e va c s0 s' ∧ s'.x 2 = s.x 2 ∧ s'.x 8 = hostPointer e.ram (c.tlbEntry va).host_base ∧
      s'.x 9 = pageOffset va) ∧ Goes (fastChecks store (t.setWidth 32) size) s s' := by
  refine A64.goes_of_runs fun w v rest => ?_
  obtain ⟨s', hkeeps, hx, hrun⟩ := run_fastPath store h.ready hp ht h1 h16 w v rest
  rw [fastPath_eq, hhit, if_pos rfl, List.append_assoc] at hrun
  exact ⟨s', ⟨h.keeps hkeeps (by decide) mem_scratch_lt, hkeeps.x 2 (by decide), hx hhit⟩, hrun⟩

/-- **A fast path that does not hit** comes to what is behind it. -/
theorem goes_fastMiss {s0 : State} (store : Bool) (h : AtAccess e va c s0 s) (hp : Placed e.base e.ram c) {t : Reg}
    (ht : t = 10 ∨ t = 11) (h1 : 1 ≤ size) (h16 : size < 16) (hmiss : inlineHits store (c.tlbEntry va) va size = false)
    (access b : U32) :
    ∃ s', (AtAccess e va c s0 s' ∧ s'.x 2 = s.x 2) ∧ Goes (fastPath store (t.setWidth 32) size access b) s s' := by
  refine A64.goes_of_runs fun w v rest => ?_
  obtain ⟨s', hkeeps, -, hrun⟩ := run_fastPath store h.ready hp ht h1 h16 access b (w :: v :: rest)
  rw [hmiss] at hrun
  exact ⟨s', ⟨h.keeps hkeeps (by decide) mem_scratch_lt, hkeeps.x 2 (by decide)⟩, hrun⟩

/-- The value in x2 is extended and goes to the guest register. -/
theorem goes_extend (hsep : Separate e c.ram_size) (hp : Placed e.base e.ram c) (hcpu : s.x 19 = e.base)
    (hrep : Represents e.base e.ram s.mem c) (doSext : Bool) (size : Nat) (rd : BitVec 5) :
    ∃ s', Goes (sextWords doSext size 2 2 ++ storeGuest 2 rd) s s' ∧ Steady e s s' ∧
      Represents e.base e.ram s'.mem (c.wr rd (extension doSext size (s.x 2))) := by
  have hsext := (straight_sext s doSext size).goes
  obtain ⟨s', hgo, hsteady, hrep'⟩ := goes_storeGuest (s := s.set 2 (extension doSext size (s.x 2))) (r := 2) hsep hrep hp hcpu
    (.inr rfl) rd
  exact ⟨s', hsext.lands hgo, (steady_of_mem (kept_set (by decide) s _) (A64.set_mem (by decide))).trans hsteady, hrep'⟩

/-! ## Accesses that hit -/

/-- The offset into RAM of an access that hits. -/
def hitAt (c : Cpu) (va : U64) : U64 := (c.tlbEntry va).host_base.getD 0 + pageOffset va

theorem hitAt_eq {store : Bool} (hhit : inlineHits store (c.tlbEntry va) va size = true) :
    ∃ b, (c.tlbEntry va).host_base = some b ∧ hitAt c va = b + pageOffset va := by
  unfold inlineHits probed at hhit
  simp only [Bool.and_eq_true] at hhit
  obtain ⟨b, hb⟩ := Option.isSome_iff_exists.1 hhit.1.1.2
  refine ⟨b, hb, ?_⟩
  unfold hitAt
  rw [hb]
  rfl

theorem hitAt_range (hp : Placed e.base e.ram c) {store : Bool} (hhit : inlineHits store (c.tlbEntry va) va size = true) :
    (c.tlbEntry va).host_base = some ((c.tlbEntry va).host_base.getD 0) ∧ (hitAt c va).toNat + size ≤ c.ram_size.toNat := by
  obtain ⟨b, hb, hin⟩ := hp.hit hhit
  unfold hitAt
  rw [hb]
  exact ⟨rfl, hin⟩

/-- **A load that hits.** -/
theorem goes_loadHit (hsep : Separate e c.ram_size) (hp : Placed e.base e.ram c) {s0 : State} (h : AtAccess e va c s0 s)
    (hsize : size = 1 ∨ size = 2 ∨ size = 4 ∨ size = 8) (hhit : inlineHits false (c.tlbEntry va) va size = true) (hs : Helpers)
    (rd : BitVec 5) (doSext : Bool) (hole : U32) :
    ∃ s', Goes (loadCode hs rd size doSext hole) s s' ∧ Steady e s0 s' ∧
      Represents e.base e.ram s'.mem (c.wr rd (extension doSext size (c.bus.mem.ram.read (hitAt c va) size))) := by
  obtain ⟨hhost, hin⟩ := hitAt_range hp hhit
  obtain ⟨⟨hb, hdist⟩, -⟩ := decode_b _ (movWords_le hs.fn_load)
  obtain ⟨s1, ⟨hat, -, h8, h9⟩, hchecks⟩ := goes_fastHit false h hp (t := 10) (.inl rfl) (by omega) (by omega) hhit
  let value := c.bus.mem.ram.read (hitAt c va) size
  have hread : s1.mem.read (s1.base 8 + s1.get 9) size = value := by
    rw [hit_address hhost h8 h9]
    exact hat.ready.rep.read_ram hin
  have hload : Goes [ldrRegWord size 2 8 9] s1 (s1.set 2 value) := by
    rw [← hread]
    exact A64.goes_op (A64.decodeOp_base (decode_access hsize).1) rfl
  have hset : A64.Keeps [2] s1 (s1.set 2 value) := A64.keeps_set (by decide) (by decide)
  have hat2 := hat.keeps hset (by decide) (by decide)
  have hjump : Lands [bWord (movWords hs.fn_load + 7)] (s1.set 2 value) (s1.set 2 value) (movWords hs.fn_load + 6) :=
    A64.lands_b hb hdist _
  rw [← loadCallWords_length hs size hole] at hjump
  have hover : Goes ([bWord (movWords hs.fn_load + 7)] ++ loadCallWords hs size hole) (s1.set 2 value) (s1.set 2 value) :=
    Lands.over hjump
  obtain ⟨s', hgo, hsteady, hrep⟩ := goes_extend hsep hp hat2.ready.cpu hat2.ready.rep doSext size rd
  have hall := hchecks.lands (hload.lands (hover.lands hgo))
  refine ⟨s', ?_, hat2.steady.trans hsteady, hrep⟩
  unfold loadCode
  rw [fastPath_eq]
  simp only [List.append_assoc, List.cons_append, List.nil_append] at hall ⊢
  exact hall

/-- **A store that hits.** -/
theorem goes_storeHit (hsep : Separate e c.ram_size) (hp : Placed e.base e.ram c) {s0 : State} (h : AtAccess e va c s0 s)
    (hsize : size = 1 ∨ size = 2 ∨ size = 4 ∨ size = 8) (hhit : inlineHits true (c.tlbEntry va) va size = true) (hs : Helpers)
    (hole : U32) :
    ∃ s', Goes (storeCode hs size hole) s s' ∧ Steady e s0 s' ∧
      Represents e.base e.ram s'.mem (c.writeRam (hitAt c va) size (s.x 2)) := by
  obtain ⟨hhost, hin⟩ := hitAt_range hp hhit
  obtain ⟨-, hb, hdist⟩ := decode_b _ (movWords_le hs.fn_store)
  obtain ⟨s1, ⟨hat, h2, h8, h9⟩, hchecks⟩ := goes_fastHit true h hp (t := 11) (.inr rfl) (by omega) (by omega) hhit
  let s2 := s1.store (e.ram + hitAt c va) size (s.x 2)
  have hstore : Goes [strRegWord size 2 8 9] s1 s2 := by
    have hvalue : s1.get 2 = s.x 2 := h2
    show Goes _ s1 (s1.store (e.ram + ((c.tlbEntry va).host_base.getD 0 + pageOffset va)) size (s.x 2))
    rw [← hit_address hhost h8 h9, ← hvalue]
    exact A64.goes_op (A64.decodeOp_base (decode_access hsize).2) rfl
  have hjump : Lands [bWord (movWords hs.fn_store + 6)] s2 s2 (movWords hs.fn_store + 5) := A64.lands_b hb hdist _
  rw [← storeCallWords_length hs size hole] at hjump
  have hover : Goes ([bWord (movWords hs.fn_store + 6)] ++ storeCallWords hs size hole) s2 s2 := Lands.over hjump
  have hall := hchecks.lands (hstore.lands hover)
  refine ⟨s2, ?_, hat.steady.trans ⟨kept_store s1 _ _ _, fun a ha => hsep.write_guest ha _ hin⟩,
    hat.ready.rep.writeRam hp hin _⟩
  unfold storeCode
  rw [fastPath_eq]
  simp only [List.append_assoc, List.cons_append, List.nil_append] at hall ⊢
  exact hall

end Access

/-! ## Accesses that call -/

theorem load_exc [NetDevice] {va : U64} {size : Nat} {c c' : Cpu} {exc : U64} (hsize : size ≤ 4096)
    (h : rv64CpuLoad va size .read c = .error exc c') : exc = excLoadPageFault := by
  have hop : (MemOp.load va size .read).size ≤ 4096 := hsize
  exact (MemOp.Faults.failing hop h).1

theorem store_exc [NetDevice] {va val : U64} {size : Nat} {c c' : Cpu} {exc : U64} (hsize : size ≤ 4096)
    (h : cpuStore va size val c = .error exc c') : exc = excStorePageFault := by
  have hop : (MemOp.store va size val).size ≤ 4096 := hsize
  exact (MemOp.Faults.failing hop h).1

/-- From `s` to `s'` nothing of the block's own has changed but the slot. -/
structure Changed (e : Place) (s s' : State) : Prop where
  kept : Kept s s'
  bytes : ∀ a, Guarded e a → ¬ DwordAt e.sp a → s'.mem a = s.mem a

theorem Steady.changed {e : Place} {s s' : State} (h : Steady e s s') : Changed e s s' := ⟨h.kept, fun a ha _ => h.bytes a ha⟩

theorem Changed.trans {e : Place} {s s' s'' : State} (h : Changed e s s') (h' : Changed e s' s'') : Changed e s s'' :=
  ⟨h.kept.trans h'.kept, fun a ha hslot => (h'.bytes a ha hslot).trans (h.bytes a ha hslot)⟩

/-- The slot is of the frame. -/
theorem guarded_slot {e : Place} {a : U64} (h : DwordAt e.sp a) : Guarded e a := by
  obtain ⟨k, hk, rfl⟩ := h
  exact .inl ⟨k, by omega, rfl⟩

theorem Steady.slot {e : Place} {s s' : State} (h : Steady e s s') : s'.mem.read e.sp 8 = s.mem.read e.sp 8 :=
  Mem.read_congr 8 e.sp fun k hk => h.bytes _ (guarded_slot ⟨k, hk, rfl⟩)

section Miss

variable {e : Place} {c : Cpu} {s s0 : State} {va : U64} {size : Nat} {hs : Helpers} {Q : Cpu → U64 → State → Prop}
  {rest : List U32} {hole : U32} {off : BitVec 19} {d : Nat}

def loadArgs (h : Helpers) (size : Nat) : List U32 :=
  movWord 0 cpuReg :: movzWWord 2 (BitVec.ofNat 16 size) :: addImm12Word 3 31 0 :: movImm 16 h.fn_load

def storeArgs (h : Helpers) (size : Nat) : List U32 :=
  movWord 0 cpuReg :: movWord 3 2 :: movzWWord 2 (BitVec.ofNat 16 size) :: movImm 16 h.fn_store

/-- What a helper finds in the registers. -/
structure Args (s s' : State) (fn : U64) (size : Nat) (x3 : U64) : Prop where
  keeps : Keeps [0, 2, 3, 16] s s'
  cpu : s'.x 0 = s.x 19
  size : (s'.getW 2).toNat = size
  x3 : s'.x 3 = x3
  fn : s'.get 16 = fn

theorem getW_size {s : State} {size : Nat} (h : size < 16) (hx : s.x 2 = BitVec.ofNat 64 size) : (s.getW 2).toNat = size := by
  show ((s.x 2).setWidth 32).toNat = size
  rw [hx, BitVec.toNat_setWidth, BitVec.toNat_ofNat]
  omega

theorem goes_loadArgs (s : State) (h : Helpers) (hsize : size < 16) :
    ∃ s', Goes (loadArgs h size) s s' ∧ Args s s' h.fn_load size s.sp := by
  let s1 := s.set 0 (s.x 19)
  let s2 := s1.set 2 (BitVec.ofNat 64 size)
  let s3 := s2.set 3 s.sp
  have hcpu : Goes [movWord 0 cpuReg] s s1 := (straight_mov s 0 (q := 19) (by decide) (by decide)).goes
  have hwidth : Goes [movzWWord 2 (BitVec.ofNat 16 size)] s1 s2 := (straight_size s1 hsize).goes
  have hsp : Goes [addImm12Word 3 31 0] s2 s3 := by
    refine A64.goes_op (A64.decodeOp_base (decode_addImm 0 (n := 31) (t := 3) (by unfold ImmFields; decide))) ?_
    have hzero : s.sp + 0 = s.sp := BitVec.add_zero _
    show A64.Outcome.next (s2.setBase 3 (s.sp + 0)) = _
    rw [A64.setBase_eq _ (by decide), hzero]
  have hfn := goes_mov 16 (by decide) h.fn_load s3
  refine ⟨s3.set 16 h.fn_load, hcpu.lands (hwidth.lands (hsp.lands hfn)), ?_, rfl, getW_size hsize rfl, rfl, rfl⟩
  exact (((A64.keeps_set (by decide) (by decide)).set (by decide) (by decide)).set (by decide) (by decide)).set (by decide)
    (by decide)

theorem goes_storeArgs (s : State) (h : Helpers) (hsize : size < 16) :
    ∃ s', Goes (storeArgs h size) s s' ∧ Args s s' h.fn_store size (s.x 2) := by
  let s1 := s.set 0 (s.x 19)
  let s2 := s1.set 3 (s.x 2)
  let s3 := s2.set 2 (BitVec.ofNat 64 size)
  have hcpu : Goes [movWord 0 cpuReg] s s1 := (straight_mov s 0 (q := 19) (by decide) (by decide)).goes
  have hval : Goes [movWord 3 2] s1 s2 := (straight_mov s1 3 (q := 2) (by decide) (by decide)).goes
  have hwidth : Goes [movzWWord 2 (BitVec.ofNat 16 size)] s2 s3 := (straight_size s2 hsize).goes
  have hfn := goes_mov 16 (by decide) h.fn_store s3
  refine ⟨s3.set 16 h.fn_store, hcpu.lands (hval.lands (hwidth.lands hfn)), ?_, rfl, getW_size hsize rfl, rfl, rfl⟩
  exact (((A64.keeps_set (by decide) (by decide)).set (by decide) (by decide)).set (by decide) (by decide)).set (by decide)
    (by decide)

theorem lands_exit (hhole : decodeOp hole = some (.cbnzW off 0)) {k : Nat} (hoff : off.toInt = k + 1) (s : State) :
    Lands [hole] s s (if s.getW 0 != 0 then k else 0) :=
  A64.lands_branch hhole rfl hoff

theorem Answered.steady {t : State} {w' c' : Cpu} {exc : U64} (h : Answered e c' s w' t exc fun _ => False) (hk : Kept s t) :
    Steady e s t :=
  ⟨hk, fun a ha => h.bytes a ha not_false⟩

/-- What is behind the exit of a load: the value is fetched from the slot. -/
def backCode (doSext : Bool) (size : Nat) (rd : BitVec 5) : List U32 :=
  ldrXWord 2 31 0 :: (sextWords doSext size 2 2 ++ storeGuest 2 rd)

theorem goes_back (hsep : Separate e c.ram_size) (hp : Placed e.base e.ram c) (hsp : s.sp = e.sp) (hcpu : s.x 19 = e.base)
    (hrep : Represents e.base e.ram s.mem c) {v : U64} (hslot : s.mem.read e.sp 8 = v) (doSext : Bool) (size : Nat)
    (rd : BitVec 5) : ∃ s', Goes (backCode doSext size rd) s s' ∧ Steady e s s' ∧
      Represents e.base e.ram s'.mem (c.wr rd (extension doSext size v)) := by
  let s1 := s.set 2 v
  have hload : Goes [ldrXWord 2 31 0] s s1 := by
    have hread : s.mem.read (s.base 31 + (0 : BitVec 12).setWidth 64 * 8) 8 = v := by
      show s.mem.read (s.sp + 0) 8 = v
      rw [hsp, ← hslot]
      exact congrArg (fun a => s.mem.read a 8) (BitVec.add_zero _)
    show Goes _ s (s.set 2 v)
    rw [← hread]
    exact A64.goes_op (A64.decodeOp_base (i := .ldrX 0 31 2) (by decide)) rfl
  obtain ⟨s', hgo, hsteady, hrep'⟩ := goes_extend (s := s1) hsep hp hcpu hrep doSext size rd
  exact ⟨s', hload.lands hgo, (steady_of_mem (kept_set (by decide) s v) (A64.set_mem (by decide))).trans hsteady, hrep'⟩

variable [NetDevice]

/-- **A load that does not hit.** -/
theorem finishes_loadMiss (hsep : Separate e c.ram_size) (hp : Placed e.base e.ram c) (h : AtAccess e va c s0 s)
    (hsp : s.sp = e.sp) (hsize : size = 1 ∨ size = 2 ∨ size = 4 ∨ size = 8)
    (hmiss : inlineHits false (c.tlbEntry va) va size = false) (hfn : hs.fn_load ≠ hs.fn_store) {rd : BitVec 5} {doSext : Bool}
    (hhole : decodeOp hole = some (.cbnzW off 0))
    (hoff : off.toInt = ((backCode doSext size rd).length + d : Nat) + 1)
    (hpages : ∀ v c', rv64CpuLoad va size .read c = .ok v c' → PagesIn c')
    (hok : ∀ v c' s', rv64CpuLoad va size .read c = .ok v c' → Changed e s0 s' → s'.mem.read e.sp 8 = v →
      Represents e.base e.ram s'.mem (c'.wr rd (extension doSext size v)) → Finishes (HelperCall hs e) Q (hidden c') rest s')
    (herr : ∀ exc c' s', rv64CpuLoad va size .read c = .error exc c' → Steady e s0 s' →
      Represents e.base e.ram s'.mem c' → Finishes (HelperCall hs e) Q (hidden c') (rest.drop d) s') :
    Finishes (HelperCall hs e) Q (hidden c) (loadCode hs rd size doSext hole ++ rest) s := by
  have h16 : 1 ≤ size ∧ size < 16 := by omega
  obtain ⟨s1, ⟨hat, -⟩, hmissed⟩ := goes_fastMiss false h hp (t := 10) (.inl rfl) h16.1 h16.2 hmiss (ldrRegWord size 2 8 9)
    (bWord (movWords hs.fn_load + 7))
  obtain ⟨s2, hargs, hfound⟩ := goes_loadArgs s1 hs h16.2
  have hat2 : AtAccess e va c s0 s2 := hat.keeps hfound.keeps (by decide) (by decide)
  have hsp2 : s2.sp = e.sp := (hat2.steady.kept.sp).trans (h.steady.kept.sp.symm.trans hsp)
  have hwords : loadCode hs rd size doSext hole ++ rest =
      (fastPath false 10 size (ldrRegWord size 2 8 9) (bWord (movWords hs.fn_load + 7)) ++ loadArgs hs size) ++
        (blrWord 16 :: ([hole] ++ (backCode doSext size rd ++ rest))) := by
    unfold loadCode loadCallWords loadArgs backCode
    simp only [List.append_assoc, List.cons_append, List.nil_append]
  rw [hwords]
  have hslot : s2.x 3 = e.sp := hfound.x3.trans (hfound.keeps.sp.symm.trans hsp2)
  have hsome : ∃ w' t, HelperCall hs e (hidden c) (s2.get 16) s2 w' t :=
    exists_helperCall hfn hsep hp.pages hat2.ready.rep fun _ => hslot
  refine Finishes.goes (A64.finishes_call (r := 16) (by decide) hsome fun w' t hcall => ?_) (hmissed.lands hargs)
  have hdoes := hcall.load hfound.fn c rfl hp.pages hat2.ready.rep (hfound.cpu.trans hat.ready.cpu)
  unfold LoadCall at hdoes
  rw [hat2.ready.va, hfound.size, hfound.x3, show s1.sp = e.sp from (hfound.keeps.sp.symm.trans hsp2)] at hdoes
  cases hrun : rv64CpuLoad va size .read c with
  | ok v c' =>
    rw [hrun] at hdoes
    obtain ⟨hans, hslot⟩ := hdoes
    have hframe := rv64CpuLoad_frame va size .read c
    rw [hrun] at hframe
    obtain ⟨tlb, bus, dbg, hc'⟩ : AccessFrame c c' := hframe
    have hsep' : Separate e c'.ram_size := by
      rw [hc']
      exact hsep
    have hp' : Placed e.base e.ram c' := hsep'.placed (by rw [hc']; exact hp.zero) (hpages v c' hrun)
    have hchanged : Changed e s0 t := hat2.steady.changed.trans ⟨hcall.kept, hans.bytes⟩
    have hcode : (t.getW 0 != 0) = false := by
      rw [hans.exc]
      rfl
    have hexit : Goes [hole] t t := by
      have hl := lands_exit hhole hoff t
      rwa [hcode] at hl
    obtain ⟨s', hback, hsteady, hrep⟩ := goes_back hsep' hp' (hcall.kept.sp.trans hsp2)
      ((hcall.kept.x 19 (by decide)).trans hat2.ready.cpu) hans.rep hslot doSext size rd
    rw [hans.world]
    have hfin := hok v c' s' hrun (hchanged.trans hsteady.changed) (hsteady.slot.trans hslot) hrep
    have hall := hfin.goes (hexit.lands hback)
    rwa [List.append_assoc] at hall
  | error exc c' =>
    rw [hrun] at hdoes
    have hcode : (t.getW 0 != 0) = true := by
      rw [hdoes.exc, load_exc (by omega) hrun]
      rfl
    rw [hdoes.world]
    have hexit := lands_exit hhole hoff t
    rw [hcode, if_pos rfl] at hexit
    have hover : Lands ([hole] ++ backCode doSext size rd) t t d := Lands.over hexit
    have hfin := herr exc c' t hrun (hat2.steady.trans (hdoes.steady hcall.kept)) hdoes.rep
    have hall := hfin.lands hover
    rwa [List.append_assoc] at hall

/-- **A store that does not hit.** -/
theorem finishes_storeMiss (hsep : Separate e c.ram_size) (hp : Placed e.base e.ram c) (h : AtAccess e va c s0 s)
    (hsize : size = 1 ∨ size = 2 ∨ size = 4 ∨ size = 8) (hmiss : inlineHits true (c.tlbEntry va) va size = false)
    (hfn : hs.fn_load ≠ hs.fn_store)
    (hhole : decodeOp hole = some (.cbnzW off 0)) (hoff : off.toInt = (d : Nat) + 1)
    (hok : ∀ c' s', cpuStore va size (s.x 2) c = .ok () c' → Steady e s0 s' → Represents e.base e.ram s'.mem c' →
      Finishes (HelperCall hs e) Q (hidden c') rest s')
    (herr : ∀ exc c' s', cpuStore va size (s.x 2) c = .error exc c' → Steady e s0 s' → Represents e.base e.ram s'.mem c' →
      Finishes (HelperCall hs e) Q (hidden c') (rest.drop d) s') :
    Finishes (HelperCall hs e) Q (hidden c) (storeCode hs size hole ++ rest) s := by
  have h16 : 1 ≤ size ∧ size < 16 := by omega
  obtain ⟨s1, ⟨hat, h2⟩, hmissed⟩ := goes_fastMiss true h hp (t := 11) (.inr rfl) h16.1 h16.2 hmiss (strRegWord size 2 8 9)
    (bWord (movWords hs.fn_store + 6))
  obtain ⟨s2, hargs, hfound⟩ := goes_storeArgs s1 hs h16.2
  have hat2 : AtAccess e va c s0 s2 := hat.keeps hfound.keeps (by decide) (by decide)
  have hwords : storeCode hs size hole ++ rest =
      (fastPath true 11 size (strRegWord size 2 8 9) (bWord (movWords hs.fn_store + 6)) ++ storeArgs hs size) ++
        (blrWord 16 :: ([hole] ++ rest)) := by
    unfold storeCode storeCallWords storeArgs
    simp only [List.append_assoc, List.cons_append, List.nil_append]
  rw [hwords]
  have hload : s2.get 16 ≠ hs.fn_load := hfound.fn ▸ hfn.symm
  have hsome : ∃ w' t, HelperCall hs e (hidden c) (s2.get 16) s2 w' t :=
    exists_helperCall hfn hsep hp.pages hat2.ready.rep fun htarget => absurd htarget hload
  refine Finishes.goes (A64.finishes_call (r := 16) (by decide) hsome fun w' t hcall => ?_) (hmissed.lands hargs)
  have hdoes := hcall.store hfound.fn c rfl hp.pages hat2.ready.rep (hfound.cpu.trans hat.ready.cpu)
  unfold StoreCall at hdoes
  rw [hat2.ready.va, hfound.size, hfound.x3, h2] at hdoes
  cases hrun : cpuStore va size (s.x 2) c with
  | ok _ c' =>
    rw [hrun] at hdoes
    have hexit := lands_exit hhole hoff t
    rw [hdoes.exc] at hexit
    rw [hdoes.world]
    exact (hok c' t hrun (hat2.steady.trans (hdoes.steady hcall.kept)) hdoes.rep).goes hexit
  | error exc c' =>
    rw [hrun] at hdoes
    have hexit := lands_exit hhole hoff t
    rw [hdoes.exc, store_exc (by omega) hrun] at hexit
    rw [hdoes.world]
    exact (herr exc c' t hrun (hat2.steady.trans (hdoes.steady hcall.kept)) hdoes.rep).lands hexit

end Miss

end Arm64
end PgLinux
