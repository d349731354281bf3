import PgLinux.Walk
/-!
# TlbCoherence — hits of the TLB against fresh walks

A run is made of translations, loads, stores, CSR writes, SFENCE.VMA and changes of mode.  A ghost beside the machine
says whether its page tables were edited since the last flush; the walker's own A and D bits are not an edit.
-/
namespace PgLinux

open Prog

/-! ## Coherent entries -/

/-- What a walk of the entry's page leaves there; the dirty flag may be any. -/
def EntryOk (c : Cpu) (te : TlbEntry) : Prop :=
  ∀ va, vpnOf va = te.vpn → ∃ level a p dirty, c.path va = .leaf level a p ∧ level < 3 ∧
    superpageAligned level p = true ∧ te = { leafEntry c.ram_size va level p p with dirty := dirty }

def TlbCoherent (c : Cpu) : Prop := ∀ i, (c.tlb i).valid = true → EntryOk c (c.tlb i)

/-- The same page tables, A and D bits aside. -/
def SamePaths (c c' : Cpu) : Prop := ∀ va, c'.path va = c.path va

theorem EntryOk.congr {c c' : Cpu} {te : TlbEntry} (h : EntryOk c te) (hpath : SamePaths c c')
    (hsize : c'.ram_size = c.ram_size) : EntryOk c' te := by
  intro va hva
  obtain ⟨level, a, p, dirty, hleaf, hrest⟩ := h va hva
  rw [hsize]
  exact ⟨level, a, p, dirty, (hpath va).trans hleaf, hrest⟩

theorem TlbCoherent.congr {c c' : Cpu} (h : TlbCoherent c) (htlb : c'.tlb = c.tlb) (hpath : SamePaths c c')
    (hsize : c'.ram_size = c.ram_size) : TlbCoherent c' := by
  intro i hi
  rw [htlb] at hi ⊢
  exact (h i hi).congr hpath hsize

theorem tlbCoherent_zero {c : Cpu} (h : c.tlb = .zero) : TlbCoherent c := by
  intro i hi
  rw [h] at hi
  cases hi

theorem leafEntry_eq {va va' : U64} (h : vpnOf va' = vpnOf va) (ramSize : U64) (level : Nat) (pte newPte : U64) :
    leafEntry ramSize va level pte newPte =
      { leafEntry ramSize va' level (marked pte) (marked pte) with dirty := newPte.getLsbD 7 } := by
  unfold leafEntry
  rw [leafPa_marked, permMask_marked, leafPa_page h, h]

section Fill

variable [NetDevice]

theorem LeafAt.entryOk {c : Cpu} {va : U64} {level : Nat} {a p pte : U64} {access : AccessType}
    (h : LeafAt c va 3 level (rootTable c.csr.satp) a p pte) (hpath : c.path va = .leaf level a p)
    (hok : leafAllows c access level p = true) (newPte : U64) :
    EntryOk c (leafEntry c.ram_size va level pte newPte) := by
  intro va' hva
  have haligned : superpageAligned level p = true := by
    unfold leafAllows at hok
    rw [Bool.and_eq_true] at hok
    exact hok.2
  refine ⟨level, a, p, newPte.getLsbD 7, (path_page hva).trans hpath, h.level_lt, haligned, ?_⟩
  rw [leafEntry_eq hva, h.mark]

/-- **A walk keeps the TLB coherent.** -/
theorem TlbCoherent.walk {c : Cpu} {va : U64} (h : TlbCoherent c) (access : AccessType) (hin : c.path va ≠ .outside) :
    TlbCoherent (final (walk va access 3 (rootTable c.csr.satp) c)) := by
  rcases walk_cases access hin with hw | ⟨level, a, p, pte, hpath, hl, hok, hw⟩
  · rw [hw]
    exact h
  · rw [hw]
    intro i hi
    have hsame : SamePaths c (c.useLeaf va access level a pte) := path_useLeaf hl access
    change ((c.useLeaf va access level a pte).tlb i).valid = true at hi
    show EntryOk (c.useLeaf va access level a pte) ((c.useLeaf va access level a pte).tlb i)
    rw [useLeaf_tlb] at hi ⊢
    unfold setAt at hi ⊢
    by_cases heq : i = tlbIndex va
    · rw [if_pos heq]
      exact (hl.entryOk hpath hok _).congr hsame (useLeaf_ram_size ..)
    · rw [if_neg heq] at hi ⊢
      exact (h i hi).congr hsame (useLeaf_ram_size ..)

end Fill

/-! ## Hits -/

theorem accessOk_perm (c : Cpu) (p : U64) (access : AccessType) :
    accessOk c ((p &&& permMask).setWidth 8) access = accessOk c p access := by
  have hR : pteR ((p &&& permMask).setWidth 8) = pteR p := perm_getLsbD (by decide) p
  have hW : pteW ((p &&& permMask).setWidth 8) = pteW p := perm_getLsbD (by decide) p
  have hX : pteX ((p &&& permMask).setWidth 8) = pteX p := perm_getLsbD (by decide) p
  cases access with
  | read => exact congrArg₂ (readOk c) hR hX
  | write => exact hW
  | exec => exact hX

theorem leafAllows_of_perm {c : Cpu} {access : AccessType} {level : Nat} {p : U64} {perm : U8}
    (hperm : perm = (p &&& permMask).setWidth 8) (ha : accessOk c perm access = true)
    (hu : privOk c (pteU perm) = true) (haligned : superpageAligned level p = true) :
    leafAllows c access level p = true := by
  have hU : pteU ((p &&& permMask).setWidth 8) = pteU p := perm_getLsbD (by decide) p
  rw [hperm, accessOk_perm] at ha
  rw [hperm, hU] at hu
  unfold leafAllows
  rw [ha, hu, haligned]
  rfl

section Hits

variable [NetDevice]

def Cpu.emptyTlb (c : Cpu) : Cpu := { c with tlb := .zero }

/-- A walk of the page tables as they are, nothing cached. -/
def FreshWalk (c : Cpu) (va : U64) (access : AccessType) (pa : U64) : Prop :=
  ∃ c', rv64Translate va access c.emptyTlb = .ok pa c'

theorem freshWalk_of_path {c : Cpu} {va : U64} {access : AccessType} {level : Nat} {a p : U64} (hp : c.priv ≠ privM)
    (hs : satpMode c.csr.satp ≠ satpModeBare) (hpath : c.path va = .leaf level a p)
    (hok : leafAllows c access level p = true) : FreshWalk c va access (leafPa level p va) := by
  have hmiss : tlbLookup c.emptyTlb va access = none := rfl
  obtain ⟨pte, hl⟩ := findLeaf_leaf (c := c.emptyTlb) (rootTable_isTable c.csr.satp) hpath
  have hw := hl.walk access
  rw [if_pos (by exact hok), walkLeaf_inRam hl.addr, ← leafPa_marked level pte, ← hl.mark] at hw
  exact ⟨_, (rv64Translate_miss (c := c.emptyTlb) hp hs hmiss).trans hw⟩

/-- Every hit is one that a fresh walk would allow, at the address it would yield. -/
structure HitsOk (c : Cpu) : Prop where
  translate : ∀ va access pa, tlbLookup c va access = some pa → FreshWalk c va access pa
  load : ∀ va size access p, access ≠ .write → loadFast c va size access = some p → FreshWalk c va access (ramBase + p)
  store : ∀ va size p, storeFast c va size = some p → FreshWalk c va .write (ramBase + p)

omit [NetDevice] in
/-- **What a hit on a coherent entry knows**: the leaf of the path, which the mode may use, and its address, through the
frame and through the pointer. -/
theorem TlbCoherent.leaf {c : Cpu} {va : U64} {access : AccessType} (h : TlbCoherent c)
    (hit : (c.tlbEntry va).hits va = true) (ha : accessOk c (c.tlbEntry va).perm access = true)
    (hu : privOk c (pteU (c.tlbEntry va).perm) = true) : ∃ level a p, c.path va = .leaf level a p ∧
      leafAllows c access level p = true ∧ (c.tlbEntry va).pa va = leafPa level p va ∧
      ∀ b, (c.tlbEntry va).host_base = some b → ramBase + (b + pageOffset va) = leafPa level p va := by
  unfold TlbEntry.hits at hit
  rw [Bool.and_eq_true, beq_iff_eq] at hit
  have hentry : EntryOk c (c.tlbEntry va) := h _ hit.1
  obtain ⟨level, a, p, dirty, hpath, hl, haligned, hte⟩ := hentry va hit.2.symm
  rw [hte] at ha hu ⊢
  refine ⟨level, a, p, hpath, leafAllows_of_perm rfl ha hu haligned, leafFrame_hit hl p va, fun b hb => ?_⟩
  dsimp only at hb
  exact leafEntry_host hb

/-- The two addresses of a hit on a coherent entry are those of the walk. -/
theorem TlbCoherent.hit {c : Cpu} {va : U64} {access : AccessType} (h : TlbCoherent c) (hp : c.priv ≠ privM)
    (hs : satpMode c.csr.satp ≠ satpModeBare) (hit : (c.tlbEntry va).hits va = true)
    (ha : accessOk c (c.tlbEntry va).perm access = true) (hu : privOk c (pteU (c.tlbEntry va).perm) = true) :
    FreshWalk c va access ((c.tlbEntry va).pa va) ∧
      ∀ b, (c.tlbEntry va).host_base = some b → FreshWalk c va access (ramBase + (b + pageOffset va)) := by
  obtain ⟨level, a, p, hpath, hok, hpa, hhost⟩ := h.leaf hit ha hu
  have hwalk := freshWalk_of_path hp hs hpath hok
  refine ⟨hpa ▸ hwalk, fun b hb => ?_⟩
  rw [hhost b hb]
  exact hwalk

/-- **A coherent TLB hits only where a fresh walk goes.** -/
theorem TlbCoherent.hitsOk {c : Cpu} (h : TlbCoherent c) (hp : c.priv ≠ privM)
    (hs : satpMode c.csr.satp ≠ satpModeBare) : HitsOk c where
  translate := by
    intro va access pa hpa
    obtain ⟨hc, hpa⟩ := Option.ite_none_right_eq_some.1 hpa
    unfold tlbAllows at hc
    simp only [Bool.and_eq_true] at hc
    obtain ⟨hit, ⟨ha, -⟩, hu⟩ := hc
    cases hpa
    exact (h.hit hp hs hit ha hu).1
  load := by
    intro va size access p haccess hload
    obtain ⟨hc, hload⟩ := Option.ite_none_right_eq_some.1 hload
    simp only [Bool.and_eq_true] at hc
    obtain ⟨⟨⟨hit, ha⟩, hu⟩, -⟩ := hc
    obtain ⟨b, hb, rfl⟩ := Option.map_eq_some_iff.1 hload
    have ha' : accessOk c (c.tlbEntry va).perm access = true := by
      cases access with
      | read => exact ha
      | write => exact absurd rfl haccess
      | exec => exact ha
    exact (h.hit hp hs hit ha' hu).2 b hb
  store := by
    intro va size p hstore
    obtain ⟨hc, hstore⟩ := Option.ite_none_right_eq_some.1 hstore
    simp only [Bool.and_eq_true] at hc
    obtain ⟨⟨⟨hit, ha, -⟩, hu⟩, -⟩ := hc
    obtain ⟨b, hb, rfl⟩ := Option.map_eq_some_iff.1 hstore
    have ha' : accessOk c (c.tlbEntry va).perm .write = true := ha
    exact (h.hit hp hs hit ha' hu).2 b hb

end Hits

/-! ## Runs -/

/-- A machine, and whether its page tables were edited since the last flush. -/
structure MmuState where
  cpu : Cpu
  edited : Prop

/-- The translation walks a path that leaves RAM. -/
def WalksOutside (c : Cpu) (va : U64) (access : AccessType) : Prop :=
  c.priv ≠ privM ∧ satpMode c.csr.satp ≠ satpModeBare ∧ tlbLookup c va access = none ∧ c.path va = .outside

section Runs

variable [NetDevice]

/-- What accesses and instructions are made of, as far as translation goes. -/
inductive MemStep : MmuState → MmuState → Prop
  | translate (c : Cpu) (e : Prop) (va : U64) (access : AccessType) :
    MemStep ⟨c, e⟩ ⟨final (rv64Translate va access c), e ∨ WalksOutside c va access⟩
  | bus (c : Cpu) (e : Prop) (b : Bus) : MemStep ⟨c, e⟩ ⟨{ c with bus := b }, e ∨ ¬ SamePaths c { c with bus := b }⟩
  | flush (c : Cpu) (e : Prop) (r : Csr) : MemStep ⟨c, e⟩ ⟨rv64TlbFlush { c with csr := r }, False⟩
  | other (c c' : Cpu) (e : Prop) (htlb : c'.tlb = c.tlb) (hram : c'.bus.mem.ram = c.bus.mem.ram)
    (hsatp : c'.csr.satp = c.csr.satp) (hsize : c'.ram_size = c.ram_size) : MemStep ⟨c, e⟩ ⟨c', e⟩

abbrev MemRun : MmuState → MmuState → Prop := Relation.ReflTransGen MemStep

def MemOk (s : MmuState) : Prop := ¬ s.edited → TlbCoherent s.cpu

theorem TlbCoherent.translate {c : Cpu} {va : U64} {access : AccessType} (h : TlbCoherent c)
    (hin : ¬ WalksOutside c va access) : TlbCoherent (final (rv64Translate va access c)) := by
  by_cases hp : c.priv = privM
  · rw [rv64Translate_machine hp]
    exact h
  by_cases hs : satpMode c.csr.satp = satpModeBare
  · rw [rv64Translate_bare hs]
    exact h
  cases hl : tlbLookup c va access with
  | some pa =>
    rw [rv64Translate_hit hp hs hl]
    exact h
  | none =>
    rw [rv64Translate_miss hp hs hl]
    exact h.walk access fun ho => hin ⟨hp, hs, hl, ho⟩

theorem MemStep.ok {s t : MmuState} (hs : MemStep s t) (h : MemOk s) : MemOk t := by
  intro he
  cases hs with
  | translate c e va access =>
    obtain ⟨he, hin⟩ := not_or.1 he
    exact (h he).translate hin
  | bus c e b =>
    obtain ⟨he, hsame⟩ := not_or.1 he
    exact (h he).congr rfl (not_not.1 hsame) rfl
  | flush c e r => exact tlbCoherent_zero rfl
  | other c c' e htlb hram hsatp hsize =>
    refine (h he).congr htlb (fun va => ?_) hsize
    unfold Cpu.path
    rw [hram, hsatp, hsize]

theorem MemRun.ok {s t : MmuState} (hs : MemRun s t) (h : MemOk s) : MemOk t := by
  induction hs with
  | refl => exact h
  | tail _ hstep ih => exact hstep.ok ih

/-! ## The operations -/

inductive MmuOp where
  | translate (va : U64) (access : AccessType)
  | load (va : U64) (size : Nat) (access : AccessType)
  | store (va : U64) (size : Nat) (val : U64)
  | csrWrite (csr : BitVec 12) (val : U64)
  | sfence
  /-- A trap or a return: another mode and `mstatus`. -/
  | mode (priv : U8) (mstatus : U64)

def MmuOp.run : MmuOp → Cpu → Cpu
  | .translate va access, c => final (rv64Translate va access c)
  | .load va size access, c => final (rv64CpuLoad va size access c)
  | .store va size val, c => final (cpuStore va size val c)
  | .csrWrite csr val, c => PgLinux.csrWrite c csr val
  | .sfence, c => rv64TlbFlush c
  | .mode priv mstatus, c => { c with priv := priv, csr := { c.csr with mstatus := mstatus } }

/-- One operation, its edits noted. -/
def OpStep (s t : MmuState) : Prop := ∃ op : MmuOp, t.cpu = op.run s.cpu ∧ MemRun s t

/-- Some tracking leads from one machine to the other. -/
def CanTrack (c c' : Cpu) : Prop := ∀ e, ∃ e', MemRun ⟨c, e⟩ ⟨c', e'⟩

instance : IsPreorder Cpu CanTrack where
  refl c e := ⟨e, .refl⟩
  trans := by
    intro c c' c'' h h' e
    obtain ⟨e', hr⟩ := h e
    obtain ⟨e'', hr'⟩ := h' e'
    exact ⟨e'', hr.trans hr'⟩

theorem canTrack_other {c c' : Cpu} (htlb : c'.tlb = c.tlb) (hram : c'.bus.mem.ram = c.bus.mem.ram)
    (hsatp : c'.csr.satp = c.csr.satp) (hsize : c'.ram_size = c.ram_size) : CanTrack c c' :=
  fun e => ⟨e, .single (.other c c' e htlb hram hsatp hsize)⟩

theorem canTrack_bus (c : Cpu) (b : Bus) : CanTrack c { c with bus := b } := fun e => ⟨_, .single (.bus c e b)⟩

theorem canTrack_translate (va : U64) (access : AccessType) : Leads CanTrack (rv64Translate va access) :=
  fun c e => ⟨_, .single (.translate c e va access)⟩

theorem canTrack_csrWrite (c : Cpu) (csr : BitVec 12) (val : U64) : CanTrack c (csrWrite c csr val) := by
  by_cases hsatp : csr = 0x180
  · unfold csrWrite
    rw [if_pos hsatp]
    exact fun e => ⟨False, .single (.flush c e _)⟩
  · obtain ⟨r, f, hr, hw⟩ := csrWrite_other hsatp c val
    rw [hw]
    exact canTrack_other rfl rfl hr rfl

/-- **Every operation can be tracked.** -/
theorem opStep_total (op : MmuOp) (s : MmuState) : ∃ e, OpStep s ⟨op.run s.cpu, e⟩ := by
  have hrun : CanTrack s.cpu (op.run s.cpu) := by
    cases op with
    | translate va access => exact canTrack_translate va access s.cpu
    | load va size access => exact leads_rv64CpuLoad (.of_any canTrack_bus) canTrack_translate va size access s.cpu
    | store va size val =>
      exact leads_cpuStore (.of_any canTrack_bus) (fun c d => canTrack_other rfl rfl rfl rfl) canTrack_translate va size val
        s.cpu
    | csrWrite csr val => exact canTrack_csrWrite s.cpu csr val
    | sfence => exact fun e => ⟨_, .single (.flush s.cpu e s.cpu.csr)⟩
    | mode priv mstatus => exact canTrack_other rfl rfl rfl rfl
  obtain ⟨e, hr⟩ := hrun s.edited
  exact ⟨e, op, rfl, hr⟩

theorem opRun_memRun {s t : MmuState} (h : Relation.ReflTransGen OpStep s t) : MemRun s t := by
  induction h with
  | refl => exact .refl
  | tail _ hstep ih =>
    obtain ⟨op, -, hr⟩ := hstep
    exact ih.trans hr

/-- **From an empty TLB, every hit is one a fresh walk would allow, at its address**, in every state of a run in
user or supervisor mode under Sv39 whose page tables were last edited before a flush. -/
theorem hitsOk_of_run {c : Cpu} {t : MmuState} (h0 : c.tlb = .zero)
    (hrun : Relation.ReflTransGen OpStep ⟨c, False⟩ t) (he : ¬ t.edited) (hp : t.cpu.priv ≠ privM)
    (hs : satpMode t.cpu.csr.satp = satpModeSv39) : HitsOk t.cpu := by
  have hok : TlbCoherent t.cpu := (opRun_memRun hrun).ok (fun _ => tlbCoherent_zero h0) he
  refine hok.hitsOk hp ?_
  rw [hs]
  decide

end Runs

section Superpage

local instance superpageNet : NetDevice := NetDevice.silent

/-- Supervisor mode, with the 1 GiB page of 0x40000000 mapped to the start of RAM. -/
def superpageCpu : Cpu :=
  let c := rv64Init (Mem.write (fun _ => 0) 0x1008 8 0x2000000F) 0x80000000
  { c with priv := privS, csr := { c.csr with satp := 0x8000000000080001 } }

def superpageRead : MmuOp := .translate 0x40000123 .read

theorem hitsOk_superpageRead : tlbLookup (superpageRead.run superpageCpu) 0x40000456 .read = some 0x80000456 ∧
    HitsOk (superpageRead.run superpageCpu) := by
  refine ⟨by decide +kernel, ?_⟩
  refine hitsOk_of_run (c := superpageCpu) rfl
    (.single ⟨superpageRead, rfl, .single (.translate superpageCpu False 0x40000123 .read)⟩) ?_ (by decide +kernel) rfl
  rintro (h | ⟨-, -, -, h⟩)
  · exact h
  · revert h
    decide +kernel

end Superpage

end PgLinux
