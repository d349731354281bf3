import PgLinux.GhostAccess
import PgLinux.Rules
import PgLinux.TlbCoherence
/-!
# AccessedDirty — the A and D bits behind every access

A walk sets A in the leaf it uses, and D for a store; an entry of the TLB remembers whether D was set.  A ghost beside the
machine says whether its page tables were edited since the last flush: a leaf moved, or robbed of A or D.
-/
namespace PgLinux

open Prog

/-! ## Marked leaves -/

/-- The page table entry at `a`. -/
def Cpu.pteAt (c : Cpu) (a : U64) : U64 := c.bus.mem.ram.read (a - ramBase) 8

/-- The leaf that maps `va` has A, and D if `d` holds. -/
def LeafMarked (c : Cpu) (va : U64) (d : Bool) : Prop :=
  ∃ level a p, c.path va = .leaf level a p ∧ (c.pteAt a).getLsbD 6 = true ∧ (d = true → (c.pteAt a).getLsbD 7 = true)

/-- No leaf is moved or loses A or D. -/
def LeavesKept (c c' : Cpu) : Prop :=
  ∀ va level a p, c.path va = .leaf level a p → c'.path va = .leaf level a p ∧
    ∀ i, i = 6 ∨ i = 7 → (c.pteAt a).getLsbD i = true → (c'.pteAt a).getLsbD i = true

/-- The leaf behind every entry of the TLB is marked as the entry says. -/
def TlbMarked (c : Cpu) : Prop :=
  ∀ i, (c.tlb i).valid = true → ∀ va, vpnOf va = (c.tlb i).vpn → LeafMarked c va (c.tlb i).dirty

instance : IsPreorder Cpu LeavesKept where
  refl _ _ _ _ _ h := ⟨h, fun _ _ => id⟩
  trans := by
    intro c d e h h' va level a p hpath
    obtain ⟨hd, hbits⟩ := h va level a p hpath
    obtain ⟨he, hbits'⟩ := h' va level a p hd
    exact ⟨he, fun i hi => hbits' i hi ∘ hbits i hi⟩

theorem LeafMarked.kept {c c' : Cpu} {va : U64} {d : Bool} (h : LeafMarked c va d) (hk : LeavesKept c c') :
    LeafMarked c' va d := by
  obtain ⟨level, a, p, hpath, hA, hD⟩ := h
  obtain ⟨hpath', hbits⟩ := hk va level a p hpath
  exact ⟨level, a, p, hpath', hbits 6 (.inl rfl) hA, fun hd => hbits 7 (.inr rfl) (hD hd)⟩

theorem LeafMarked.page {c : Cpu} {va va' : U64} {d : Bool} (h : LeafMarked c va d) (hv : vpnOf va' = vpnOf va) :
    LeafMarked c va' d := by
  obtain ⟨level, a, p, hpath, hbits⟩ := h
  exact ⟨level, a, p, (path_page hv).trans hpath, hbits⟩

theorem LeafMarked.weaken {c : Cpu} {va : U64} {d d' : Bool} (h : LeafMarked c va d) (hd : d' = true → d = true) :
    LeafMarked c va d' := by
  obtain ⟨level, a, p, hpath, hA, hD⟩ := h
  exact ⟨level, a, p, hpath, hA, hD ∘ hd⟩

theorem TlbMarked.kept {c c' : Cpu} (h : TlbMarked c) (htlb : c'.tlb = c.tlb) (hk : LeavesKept c c') : TlbMarked c' := by
  intro i hi va hva
  rw [htlb] at hi hva ⊢
  exact (h i hi va hva).kept hk

theorem tlbMarked_zero {c : Cpu} (h : c.tlb = .zero) : TlbMarked c := by
  intro i hi
  rw [h] at hi
  cases hi

theorem leavesKept_of_ram {c c' : Cpu} (hram : c'.bus.mem.ram = c.bus.mem.ram) (hsatp : c'.csr.satp = c.csr.satp)
    (hsize : c'.ram_size = c.ram_size) : LeavesKept c c' := by
  intro va level a p hpath
  unfold Cpu.path Cpu.pteAt at *
  rw [hram, hsatp, hsize]
  exact ⟨hpath, fun _ _ => id⟩

/-- An entry that hits knows its leaf. -/
theorem TlbMarked.hit {c : Cpu} {va : U64} (h : TlbMarked c) (hit : (c.tlbEntry va).hits va = true) :
    LeafMarked c va (c.tlbEntry va).dirty := by
  unfold TlbEntry.hits at hit
  rw [Bool.and_eq_true, beq_iff_eq] at hit
  exact h _ hit.1 va hit.2.symm

/-! ## The walk -/

theorem withAD_keeps (pte : U64) (access : AccessType) {i : Nat} (h : pte.getLsbD i = true) :
    (withAD pte access).getLsbD i = true := by
  unfold withAD
  split <;> simp [h]

theorem withAD_accessed (pte : U64) (access : AccessType) : (withAD pte access).getLsbD 6 = true := by
  unfold withAD
  split <;> simp [pteA]

theorem withAD_dirty (pte : U64) : (withAD pte .write).getLsbD 7 = true := by simp [withAD, pteD]

section Walk

variable [NetDevice] {c : Cpu} {va pt a p pte : U64} {n level : Nat}

/-- A leaf once it was used. -/
theorem useLeaf_pteAt (h : LeafAt c va n level pt a p pte) (access : AccessType) :
    (c.useLeaf va access level a pte).pteAt a = withAD pte access := by
  unfold Cpu.useLeaf Cpu.pteAt
  dsimp only
  split
  · exact Mem.read_write_pte _ _ _
  next hsame => rw [not_not.1 hsame, h.read]

/-- **Using a leaf moves no leaf, and takes A and D from none.** -/
theorem useLeaf_kept (h : LeafAt c va n level pt a p pte) (access : AccessType) :
    LeavesKept c (c.useLeaf va access level a pte) := by
  intro va' level' a' p' hpath
  refine ⟨(path_useLeaf h access va').trans hpath, fun i _ hbit => ?_⟩
  obtain ⟨pte', hl⟩ := findLeaf_leaf (rootTable_isTable _) hpath
  by_cases haa : a' = a
  · subst haa
    rw [useLeaf_pteAt h]
    refine withAD_keeps pte access ?_
    rw [h.read]
    exact hbit
  · have hother : (c.useLeaf va access level a pte).pteAt a' = c.pteAt a' := by
      unfold Cpu.useLeaf Cpu.pteAt
      dsimp only
      split
      · exact h.addr.read_write_ne hl.addr haa _ _
      · rfl
    rw [hother]
    exact hbit

/-- **A walk leaves A, and D for a store, in the leaf it uses.** -/
theorem useLeaf_marked (h : LeafAt c va n level pt a p pte) (hpath : c.path va = .leaf level a p) (access : AccessType) :
    LeafMarked (c.useLeaf va access level a pte) va ((withAD pte access).getLsbD 7) := by
  refine ⟨level, a, p, (path_useLeaf h access va).trans hpath, ?_, ?_⟩
  · rw [useLeaf_pteAt h]
    exact withAD_accessed pte access
  · rw [useLeaf_pteAt h]
    exact id

theorem TlbMarked.useLeaf (hm : TlbMarked c) (h : LeafAt c va n level pt a p pte) (hpath : c.path va = .leaf level a p)
    (access : AccessType) : TlbMarked (c.useLeaf va access level a pte) := by
  intro i hi va' hva
  rw [useLeaf_tlb] at hi hva ⊢
  unfold setAt at hi hva ⊢
  by_cases heq : i = tlbIndex va
  · rw [if_pos heq] at hva ⊢
    exact (useLeaf_marked h hpath access).page hva
  · rw [if_neg heq] at hi hva ⊢
    exact (hm i hi va' hva).kept (useLeaf_kept h access)

end Walk

/-! ## The ghost -/

def Edits (c c' : Cpu) : Prop := ¬ LeavesKept c c'

/-- The walker's own marks are no edit; a walk outside RAM counts as one. -/
def editGhosts [NetDevice] : Ghosts Prop where
  translate va access _ c _ e := e ∨ WalksOutside c va access
  fast _ _ _ c c' e := e ∨ Edits c c'
  bus _ c c' e := e ∨ Edits c c'

/-- A machine, and whether its page tables were edited since the last flush. -/
abbrev EditState := Ghosted Prop

/-! ## What an access does -/

/-- The ghost only rises; without an edit no leaf is robbed, and the TLB stays marked. -/
structure TrackedMove (s t : EditState) : Prop where
  frame : AccessFrame s.cpu t.cpu
  edited : s.ghost → t.ghost
  kept : ¬ t.ghost → LeavesKept s.cpu t.cpu
  marked : (¬ s.ghost → TlbMarked s.cpu) → ¬ t.ghost → TlbMarked t.cpu

instance : IsPreorder EditState TrackedMove where
  refl s := ⟨refl_of AccessFrame s.cpu, id, fun _ => refl_of LeavesKept s.cpu, id⟩
  trans := by
    intro s t u h h'
    refine ⟨trans_of AccessFrame h.frame h'.frame, h'.edited ∘ h.edited, fun hu => ?_, fun hs hu => ?_⟩
    · have ht : ¬ t.ghost := hu ∘ h'.edited
      exact trans_of LeavesKept (h.kept ht) (h'.kept hu)
    · exact h'.marked (h.marked hs) hu

/-- User or supervisor mode under Sv39. -/
def Paged (c : Cpu) : Prop := c.priv ≠ privM ∧ satpMode c.csr.satp = satpModeSv39

theorem Paged.frame {c c' : Cpu} (h : Paged c) (hf : AccessFrame c c') : Paged c' := by
  obtain ⟨t, b, d, rfl⟩ := hf
  exact h

/-- Where the program returns without an edit, the leaf of every address of `P` is marked. -/
def Covers {α : Type} (m : EStateM U64 EditState α) (P : U64 → Prop) (d : Bool) : Prop :=
  ∀ s v t, m s = .ok v t → Paged s.cpu → (¬ s.ghost → TlbMarked s.cpu) → ¬ t.ghost → ∀ va, P va → LeafMarked t.cpu va d

theorem leads_move {α : Type} {g : Option α → Cpu → Cpu → Prop → Prop} {E : Cpu → Cpu → Prop} {m : Access α}
    (hg : ∀ v c c' e, g v c c' e ↔ e ∨ E c c') (hframe : Leads AccessFrame m)
    (hkept : ∀ c, ¬ E c (final (m c)) → LeavesKept c (final (m c)))
    (hmarked : ∀ c, ¬ E c (final (m c)) → TlbMarked c → TlbMarked (final (m c))) : Leads TrackedMove (ghosted g m) := by
  intro s
  obtain ⟨v, hfin⟩ := final_ghosted g m s
  rw [hfin]
  refine ⟨hframe s.cpu, fun he => (hg _ _ _ _).2 (.inl he), fun hne => ?_, fun hs hne => ?_⟩
  · exact hkept s.cpu fun h => hne ((hg _ _ _ _).2 (.inr h))
  · exact hmarked s.cpu (fun h => hne ((hg _ _ _ _).2 (.inr h))) (hs fun h => hne ((hg _ _ _ _).2 (.inl h)))

/-- Only what is behind the bus changes, and the ghost sees the edits. -/
theorem leads_edits {α : Type} {g : Option α → Cpu → Cpu → Prop → Prop} {m : Access α}
    (hg : ∀ v c c' e, g v c c' e ↔ e ∨ Edits c c') (hbus : ∀ c, ∃ b, final (m c) = { c with bus := b }) :
    Leads TrackedMove (ghosted g m) := by
  refine leads_move hg (fun c => ?_) (fun c => not_not.1) fun c hkept hm => ?_
  · obtain ⟨b, hb⟩ := hbus c
    exact ⟨c.tlb, b, c.dbg, hb⟩
  · refine hm.kept ?_ (not_not.1 hkept)
    obtain ⟨b, hb⟩ := hbus c
    rw [hb]

section Covers

variable {α β : Type} {P Q : U64 → Prop} {d d' : Bool}

theorem covers_nothing (m : EStateM U64 EditState α) (d : Bool) : Covers m (fun _ => False) d := fun _ _ _ _ _ _ _ _ => False.elim

theorem Covers.mono {m : EStateM U64 EditState α} (h : Covers m P d) (hq : ∀ va, Q va → P va) (hd : d' = true → d = true) :
    Covers m Q d' := fun s v t hr hp hs ht va hva => (h s v t hr hp hs ht va (hq va hva)).weaken hd

/-- **A sequence covers what its parts cover.** -/
theorem covers_bind {m : EStateM U64 EditState α} {f : α → EStateM U64 EditState β} (hm : Covers m P d) (hlead : Leads TrackedMove m)
    (hf : ∀ a, Covers (f a) Q d) (hflead : ∀ a, Leads TrackedMove (f a)) : Covers (m >>= f) (fun va => P va ∨ Q va) d := by
  intro s v u hr hp hs hu va hva
  obtain ⟨a, t, hms, hr⟩ := bind_eq_ok.1 hr
  have hmove := hlead s
  have hnext := hflead a t
  rw [hms] at hmove
  rw [hr] at hnext
  have ht : ¬ t.ghost := hu ∘ hnext.edited
  rcases hva with hva | hva
  · exact (hm s a t hms hp hs ht va hva).kept (hnext.kept hu)
  · exact hf a t v u hr (hp.frame hmove.frame) (hmove.marked hs) hu va hva

end Covers

section Accesses

variable [NetDevice]

/-- **A translation that does not leave RAM faults and changes nothing, or marks its leaf.** -/
theorem translate_cases {c : Cpu} {va : U64} {access : AccessType} (hin : ¬ WalksOutside c va access) :
    final (rv64Translate va access c) = c ∨
      ∃ level a p pte, c.path va = .leaf level a p ∧ LeafAt c va 3 level (rootTable c.csr.satp) a p pte ∧
        final (rv64Translate va access c) = c.useLeaf va access level a pte := by
  by_cases hp : c.priv = privM
  · rw [rv64Translate_machine hp]
    exact .inl rfl
  by_cases hs : satpMode c.csr.satp = satpModeBare
  · rw [rv64Translate_bare hs]
    exact .inl rfl
  cases hl : tlbLookup c va access with
  | some pa =>
    rw [rv64Translate_hit hp hs hl]
    exact .inl rfl
  | none =>
    rw [rv64Translate_miss hp hs hl]
    rcases walk_cases access (fun ho => hin ⟨hp, hs, hl, ho⟩) with hw | ⟨level, a, p, pte, hpath, hleaf, -, hw⟩
    · rw [hw]
      exact .inl rfl
    · rw [hw]
      exact .inr ⟨level, a, p, pte, hpath, hleaf, rfl⟩

theorem translateG_move (va : U64) (access : AccessType) : Leads TrackedMove (translateG editGhosts va access) := by
  refine leads_move (E := fun c _ => WalksOutside c va access) (fun _ _ _ _ => Iff.rfl) (rv64Translate_frame va access)
    (fun c hin => ?_) fun c hin hm => ?_
  · rcases translate_cases hin with h | ⟨level, a, p, pte, -, hleaf, h⟩ <;> rw [h]
    · exact refl_of LeavesKept c
    · exact useLeaf_kept hleaf access
  · rcases translate_cases hin with h | ⟨level, a, p, pte, hpath, hleaf, h⟩ <;> rw [h]
    · exact hm
    · exact hm.useLeaf hleaf hpath access

theorem trackedMove_rules : GhostRules editGhosts TrackedMove where
  translate := translateG_move
  busLoad _ _ := leads_edits (fun _ _ _ _ => Iff.rfl) fun _ => ⟨_, rfl⟩
  busStore _ _ _ := leads_edits (fun _ _ _ _ => Iff.rfl) fun _ => ⟨_, rfl⟩

theorem loadG_move (va : U64) (size : Nat) (access : AccessType) : Leads TrackedMove (loadG editGhosts va size access) := by
  intro s
  cases hfast : loadFast s.cpu va size access with
  | some p =>
    rw [loadG_hit editGhosts hfast]
    refine ⟨refl_of AccessFrame s.cpu, .inl, fun _ => refl_of LeavesKept s.cpu, fun hs hne => hs ?_⟩
    exact fun he => hne (.inl he)
  | none =>
    rw [loadG_miss editGhosts hfast]
    exact trackedMove_rules.slowLoad va size access s

theorem storeAtG_move (va : U64) (size : Nat) (val : U64) : Leads TrackedMove (storeAtG editGhosts va size val) := by
  intro s
  cases hfast : storeFast s.cpu va size with
  | some p =>
    have hwrite : Leads TrackedMove (ghosted (fun _ => editGhosts.fast va .write p)
        fun c => .ok () (c.writeRam p size val)) := leads_edits (fun _ _ _ _ => Iff.rfl) fun c => ⟨_, rfl⟩
    rw [storeAtG_hit editGhosts hfast]
    exact hwrite s
  | none =>
    rw [storeAtG_miss editGhosts hfast]
    exact trackedMove_rules.slowStore va size val s

omit [NetDevice] in
/-- The watchpoint log leaves memory and TLB alone. -/
theorem logStore_move (va : U64) (size : Nat) (val : U64) :
    Leads TrackedMove (ghosted (fun _ _ _ => id) (modify (logStore va size val)) : EStateM U64 EditState PUnit) := by
  refine leads_move (E := fun _ _ => False) (fun _ _ _ _ => (or_false _).symm.to_iff) (fun c => ?_) (fun c _ => ?_)
    fun c _ hm => ?_ <;> obtain ⟨d, hd⟩ := logStore_dbg va size val c
  · exact ⟨c.tlb, c.bus, d, hd⟩
  · show LeavesKept c (logStore va size val c)
    rw [hd]
    exact leavesKept_of_ram rfl rfl rfl
  · show TlbMarked (logStore va size val c)
    rw [hd]
    exact hm.kept rfl (leavesKept_of_ram rfl rfl rfl)

theorem storeG_move (va : U64) (size : Nat) (val : U64) : Leads TrackedMove (storeG editGhosts va size val) :=
  leads_bind (logStore_move va size val) fun _ => storeAtG_move va size val

/-! ## What an access covers -/

/-- **A translation that returns has marked the leaf of the page.** -/
theorem translateG_covers (va : U64) (access : AccessType) :
    Covers (translateG editGhosts va access) (fun va' => vpnOf va' = vpnOf va) (decide (access = .write)) := by
  rintro s pa t hr ⟨hp, hsv⟩ hs ht va' hva
  have hbare : satpMode s.cpu.csr.satp ≠ satpModeBare := by
    rw [hsv]
    decide
  unfold translateG ghosted at hr
  cases htr : rv64Translate va access s.cpu with
  | error exc c =>
    rw [htr] at hr
    cases hr
  | ok pa' c =>
    rw [htr] at hr
    cases hr
    obtain ⟨hne, hin⟩ := not_or.1 ht
    refine LeafMarked.page ?_ hva
    cases hl : tlbLookup s.cpu va access with
    | some q =>
      rw [rv64Translate_hit hp hbare hl] at htr
      cases htr
      obtain ⟨hc, -⟩ := Option.ite_none_right_eq_some.1 hl
      unfold tlbAllows at hc
      simp only [Bool.and_eq_true] at hc
      obtain ⟨hit, ⟨-, hdirty⟩, -⟩ := hc
      refine ((hs hne).hit hit).weaken fun hw => ?_
      rw [decide_eq_true_iff] at hw
      subst hw
      simpa using hdirty
    | none =>
      rw [rv64Translate_miss hp hbare hl] at htr
      rcases walk_cases access (fun ho => hin ⟨hp, hbare, hl, ho⟩) with hw | ⟨level, a, p, pte, hpath, hleaf, -, hw⟩
      · rw [hw] at htr
        cases htr
      · rw [hw] at htr
        cases htr
        refine (useLeaf_marked hleaf hpath access).weaken fun hw => ?_
        rw [decide_eq_true_iff] at hw
        subst hw
        exact withAD_dirty pte

/-- The bytes of an access, from byte `i` on. -/
def BytesFrom (va : U64) (i n : Nat) (va' : U64) : Prop := ∃ j, i ≤ j ∧ j < i + n ∧ va' = va + BitVec.ofNat 64 j

omit [NetDevice] in
theorem bytesFrom_zero {va : U64} {i : Nat} {va' : U64} (h : BytesFrom va i 0 va') : False := by
  obtain ⟨j, hi, hj, -⟩ := h
  omega

omit [NetDevice] in
theorem bytesFrom_succ {va : U64} {i n : Nat} {va' : U64} (h : BytesFrom va i (n + 1) va') :
    vpnOf va' = vpnOf (va + BitVec.ofNat 64 i) ∨ False ∨ BytesFrom va (i + 1) n va' := by
  obtain ⟨j, hi, hj, rfl⟩ := h
  by_cases heq : j = i
  · exact .inl (by rw [heq])
  · exact .inr (.inr ⟨j, by omega, by omega, rfl⟩)

omit [NetDevice] in
/-- An access that does not cross a page stays in it. -/
theorem bytesFrom_page {va : U64} {size : Nat} {va' : U64} (h : ¬ crossesPage va size = true) (hb : BytesFrom va 0 size va') :
    vpnOf va' = vpnOf va := by
  obtain ⟨j, -, hj, rfl⟩ := hb
  have hoff : (pageOffset va).toNat = va.toNat % 4096 := by
    unfold pageOffset
    rw [BitVec.toNat_and]
    exact Nat.and_two_pow_sub_one_eq_mod va.toNat 12
  unfold crossesPage at h
  rw [decide_eq_true_iff, hoff] at h
  have hlt := va.isLt
  apply BitVec.eq_of_toNat_eq
  unfold vpnOf
  rw [BitVec.toNat_ushiftRight, BitVec.toNat_ushiftRight, BitVec.toNat_add, BitVec.toNat_ofNat,
    Nat.shiftRight_eq_div_pow, Nat.shiftRight_eq_div_pow]
  omega

theorem loadBytesG_covers (va : U64) (access : AccessType) : ∀ (n i : Nat) (r : U64),
    Covers (loadBytesG editGhosts va access n i r) (BytesFrom va i n) (decide (access = .write))
  | 0, _, _ => (covers_nothing _ _).mono (fun _ => bytesFrom_zero) id
  | n + 1, i, r => by
    have hrest : ∀ v : U64, Leads TrackedMove (loadBytesG editGhosts va access n (i + 1) (r ||| (v &&& 0xFF) <<< (i * 8))) :=
      fun v => trackedMove_rules.loadBytes va access n (i + 1) _
    have hload := fun pa => trackedMove_rules.busLoad pa 1
    have hbytes := covers_bind (translateG_covers (va + BitVec.ofNat 64 i) access) (translateG_move _ _)
      (fun pa => covers_bind (covers_nothing (busLoadG editGhosts pa 1) _) (hload pa)
        (fun v => loadBytesG_covers va access n (i + 1) (r ||| (v &&& 0xFF) <<< (i * 8))) hrest)
      fun pa => leads_bind (hload pa) hrest
    exact hbytes.mono (fun _ => bytesFrom_succ) id

/-- **A load that returns has marked the leaves of its bytes.** -/
theorem loadG_covers (va : U64) (size : Nat) (access : AccessType) :
    Covers (loadG editGhosts va size access) (BytesFrom va 0 size) false := by
  intro s v t hr hp hs ht va' hva
  cases hfast : loadFast s.cpu va size access with
  | some p =>
    rw [loadG_hit editGhosts hfast] at hr
    cases hr
    obtain ⟨hc, -⟩ := Option.ite_none_right_eq_some.1 hfast
    simp only [Bool.and_eq_true] at hc
    obtain ⟨⟨⟨hit, -⟩, -⟩, hpage⟩ := hc
    have hleaf := ((hs fun he => ht (.inl he)).hit hit).page (bytesFrom_page (by simpa using hpage) hva)
    exact hleaf.weaken fun h => nomatch h
  | none =>
    rw [loadG_miss editGhosts hfast] at hr
    by_cases hcross : crossesPage va size = true
    · rw [if_pos hcross] at hr
      exact (loadBytesG_covers va access size 0 0 s v t hr hp hs ht va' hva).weaken fun h => nomatch h
    · rw [if_neg hcross] at hr
      have hcovers := covers_bind (translateG_covers va access) (translateG_move va access)
        (fun pa => covers_nothing (busLoadG editGhosts pa size) _) fun pa => trackedMove_rules.busLoad pa size
      exact (hcovers s v t hr hp hs ht va' (.inl (bytesFrom_page hcross hva))).weaken fun h => nomatch h

theorem storeBytesG_covers (va val : U64) : ∀ (n i : Nat),
    Covers (storeBytesG editGhosts va val n i) (BytesFrom va i n) true
  | 0, _ => (covers_nothing _ _).mono (fun _ => bytesFrom_zero) id
  | n + 1, i => by
    have hrest := trackedMove_rules.storeBytes va val n (i + 1)
    have hstore := fun pa => trackedMove_rules.busStore pa 1 ((val >>> (i * 8)) &&& 0xFF)
    have hbytes := covers_bind (translateG_covers (va + BitVec.ofNat 64 i) .write) (translateG_move _ _)
      (fun pa => covers_bind (covers_nothing (busStoreG editGhosts pa 1 ((val >>> (i * 8)) &&& 0xFF)) _) (hstore pa)
        (fun _ => storeBytesG_covers va val n (i + 1)) fun _ => hrest)
      fun pa => leads_bind (hstore pa) fun _ => hrest
    exact hbytes.mono (fun _ => bytesFrom_succ) id

theorem storeAtG_covers (va : U64) (size : Nat) (val : U64) :
    Covers (storeAtG editGhosts va size val) (BytesFrom va 0 size) true := by
  intro s v t hr hp hs ht va' hva
  cases hfast : storeFast s.cpu va size with
  | some p =>
    rw [storeAtG_hit editGhosts hfast] at hr
    cases hr
    obtain ⟨hne, hkept⟩ := not_or.1 ht
    obtain ⟨hc, -⟩ := Option.ite_none_right_eq_some.1 hfast
    simp only [Bool.and_eq_true] at hc
    obtain ⟨⟨⟨hit, -, hdirty⟩, -⟩, hpage⟩ := hc
    have hleaf := ((hs hne).hit hit).page (bytesFrom_page (by simpa using hpage) hva)
    rw [hdirty] at hleaf
    exact hleaf.kept (not_not.1 hkept)
  | none =>
    rw [storeAtG_miss editGhosts hfast] at hr
    by_cases hcross : crossesPage va size = true
    · rw [if_pos hcross] at hr
      exact storeBytesG_covers va val size 0 s v t hr hp hs ht va' hva
    · rw [if_neg hcross] at hr
      have hcovers := covers_bind (translateG_covers va .write) (translateG_move va .write)
        (fun pa => covers_nothing (busStoreG editGhosts pa size val) _) fun pa => trackedMove_rules.busStore pa size val
      exact hcovers s v t hr hp hs ht va' (.inl (bytesFrom_page hcross hva))

/-- **A store that returns has marked the leaves of its bytes as dirty.** -/
theorem storeG_covers (va : U64) (size : Nat) (val : U64) :
    Covers (storeG editGhosts va size val) (BytesFrom va 0 size) true := by
  have hcovers := covers_bind
    (covers_nothing (ghosted (fun _ _ _ => id) (modify (logStore va size val)) : EStateM U64 EditState PUnit) true)
    (logStore_move va size val) (fun _ => storeAtG_covers va size val) fun _ => storeAtG_move va size val
  exact hcovers.mono (fun _ => .inr) id

end Accesses

/-! ## Runs -/

/-- What happens to the machine, as far as translation goes. -/
inductive MmuEvent where
  | translate (va : U64) (access : AccessType)
  | load (va : U64) (size : Nat) (access : AccessType)
  | store (va : U64) (size : Nat) (val : U64)
  | csrWrite (csr : BitVec 12) (val : U64)
  | sfence
  /-- Devices and DMA. -/
  | bus (b : Bus)
  /-- Registers, logs, traps and returns. -/
  | other (d : Cpu)

/-- The machine `d` with the TLB, the bus and the page tables of `c`. -/
def Cpu.keepMmu (c d : Cpu) : Cpu :=
  { d with tlb := c.tlb, bus := c.bus, csr := { d.csr with satp := c.csr.satp }, ram_size := c.ram_size }

section Events

variable [NetDevice]

def MmuEvent.run (c : Cpu) : MmuEvent → Cpu
  | .translate va access => final (rv64Translate va access c)
  | .load va size access => final (rv64CpuLoad va size access c)
  | .store va size val => final (cpuStore va size val c)
  | .csrWrite csr val => PgLinux.csrWrite c csr val
  | .sfence => rv64TlbFlush c
  | .bus b => { c with bus := b }
  | .other d => c.keepMmu d

/-- The ghost rises with an edit, and falls with a flush, that of a write of `satp` included. -/
def MmuEvent.track (s : EditState) : MmuEvent → EditState
  | .translate va access => final (translateG editGhosts va access s)
  | .load va size access => final (loadG editGhosts va size access s)
  | .store va size val => final (storeG editGhosts va size val s)
  | .csrWrite csr val => ⟨PgLinux.csrWrite s.cpu csr val, csr ≠ 0x180 ∧ s.ghost⟩
  | .sfence => ⟨rv64TlbFlush s.cpu, False⟩
  | .bus b => ⟨{ s.cpu with bus := b }, s.ghost ∨ Edits s.cpu { s.cpu with bus := b }⟩
  | .other d => ⟨s.cpu.keepMmu d, s.ghost⟩

/-- **The ghost does not touch the machine.** -/
theorem track_cpu (s : EditState) (e : MmuEvent) : (e.track s).cpu = e.run s.cpu := by
  cases e with
  | translate va access => exact (erases_ghosted _ _).final s
  | load va size access => exact (erases_load _ va size access).final s
  | store va size val => exact (erases_store _ va size val).final s
  | _ => rfl

def StateMarked (s : EditState) : Prop := ¬ s.ghost → TlbMarked s.cpu

omit [NetDevice] in
theorem csrWrite_kept {csr : BitVec 12} (h : csr ≠ 0x180) (c : Cpu) (val : U64) :
    (csrWrite c csr val).tlb = c.tlb ∧ LeavesKept c (csrWrite c csr val) := by
  obtain ⟨r, f, hr, hw⟩ := csrWrite_other h c val
  rw [hw]
  exact ⟨rfl, leavesKept_of_ram rfl hr rfl⟩

/-- **Every event keeps the TLB marked while nothing is edited.** -/
theorem StateMarked.track {s : EditState} (h : StateMarked s) (e : MmuEvent) : StateMarked (e.track s) := by
  cases e with
  | translate va access => exact (translateG_move va access s).marked h
  | load va size access => exact (loadG_move va size access s).marked h
  | store va size val => exact (storeG_move va size val s).marked h
  | csrWrite csr val =>
    intro he
    by_cases hsatp : csr = 0x180
    · subst hsatp
      exact tlbMarked_zero rfl
    · obtain ⟨htlb, hkept⟩ := csrWrite_kept hsatp s.cpu val
      exact (h fun hs => he ⟨hsatp, hs⟩).kept htlb hkept
  | sfence => exact fun _ => tlbMarked_zero rfl
  | bus b =>
    intro he
    obtain ⟨hs, hkept⟩ := not_or.1 he
    exact (h hs).kept rfl (not_not.1 hkept)
  | other d => exact fun he => (h he).kept rfl (leavesKept_of_ram rfl rfl rfl)

theorem StateMarked.run {s : EditState} (h : StateMarked s) (evs : List MmuEvent) :
    StateMarked (evs.foldl MmuEvent.track s) := by
  induction evs generalizing s with
  | nil => exact h
  | cons e evs ih => exact ih (h.track e)

/-- Every access that returns, and edits nothing, leaves A in the leaf of each byte, and D if it is a store. -/
structure MarksLeaves (s : EditState) : Prop where
  translate : ∀ va access pa c', rv64Translate va access s.cpu = .ok pa c' →
    ¬ ((MmuEvent.translate va access).track s).ghost → LeafMarked c' va (decide (access = .write))
  load : ∀ va size access v c', rv64CpuLoad va size access s.cpu = .ok v c' →
    ¬ ((MmuEvent.load va size access).track s).ghost → ∀ i, i < size → LeafMarked c' (va + BitVec.ofNat 64 i) false
  store : ∀ va size val c', cpuStore va size val s.cpu = .ok () c' →
    ¬ ((MmuEvent.store va size val).track s).ghost → ∀ i, i < size → LeafMarked c' (va + BitVec.ofNat 64 i) true

/-- **From an empty TLB, every access of user or supervisor mode under Sv39 that returns has A, and D if it is a store, in
the leaf PTE of each of its bytes**, in every run whose page tables were last edited before a flush. -/
theorem accessedDirty_of_run {c : Cpu} (h0 : c.tlb = .zero) (evs : List MmuEvent)
    (hpaged : Paged (evs.foldl MmuEvent.track ⟨c, False⟩).cpu) : MarksLeaves (evs.foldl MmuEvent.track ⟨c, False⟩) := by
  have hmarked : StateMarked (evs.foldl MmuEvent.track ⟨c, False⟩) :=
    StateMarked.run (fun _ => tlbMarked_zero h0) evs
  generalize evs.foldl MmuEvent.track ⟨c, False⟩ = s at hpaged hmarked
  refine ⟨fun va access pa c' hr he => ?_, fun va size access v c' hr he i hi => ?_, fun va size val c' hr he i hi => ?_⟩
  · obtain ⟨t, ht, rfl⟩ := (erases_ghosted (editGhosts.translate va access) (rv64Translate va access)).ok hr
    have hend : (MmuEvent.translate va access).track s = t := congrArg final ht
    rw [hend] at he
    exact translateG_covers va access s pa t ht hpaged hmarked he va rfl
  · obtain ⟨t, ht, rfl⟩ := (erases_load editGhosts va size access).ok hr
    have hend : (MmuEvent.load va size access).track s = t := congrArg final ht
    rw [hend] at he
    exact loadG_covers va size access s v t ht hpaged hmarked he _ ⟨i, Nat.zero_le i, by omega, rfl⟩
  · obtain ⟨t, ht, rfl⟩ := (erases_store editGhosts va size val).ok hr
    have hend : (MmuEvent.store va size val).track s = t := congrArg final ht
    rw [hend] at he
    exact storeG_covers va size val s () t ht hpaged hmarked he _ ⟨i, Nat.zero_le i, by omega, rfl⟩

/-! ## Every move of the machine is made of events -/

/-- A run of events leads from one machine to the other. -/
def EventRun (c c' : Cpu) : Prop := ∃ evs : List MmuEvent, c' = evs.foldl MmuEvent.run c

instance : IsPreorder Cpu EventRun where
  refl _ := ⟨[], rfl⟩
  trans := by
    rintro c _ _ ⟨evs, rfl⟩ ⟨evs', rfl⟩
    exact ⟨evs ++ evs', List.foldl_append.symm⟩

theorem eventRun_other {c c' : Cpu} (htlb : c'.tlb = c.tlb) (hbus : c'.bus = c.bus) (hsatp : c'.csr.satp = c.csr.satp)
    (hsize : c'.ram_size = c.ram_size) : EventRun c c' := by
  refine ⟨[.other c'], ?_⟩
  show c' = c.keepMmu c'
  unfold Cpu.keepMmu
  rw [← htlb, ← hbus, ← hsatp, ← hsize]

theorem eventRun_rules : StepRules EventRun where
  core h := eventRun_other h.tlb h.bus h.satp h.ram_size
  load va size access _ := ⟨[.load va size access], rfl⟩
  store va size val _ := ⟨[.store va size val], rfl⟩
  trap c cause tval := by
    obtain ⟨r, p, pc, d, h⟩ := trap_frame c cause tval
    refine eventRun_other ?_ ?_ (trap_satp c cause tval) ?_ <;> rw [h]
  csrWrite _ csr val := ⟨[.csrWrite csr val], rfl⟩
  tlbFlush _ := ⟨[.sfence], rfl⟩
  jitFlush _ := eventRun_other rfl rfl rfl rfl

/-- **Every run of the machine is a run of events.** -/
theorem machineRun_events [HostFp] {c c' : Cpu} (h : MachineRun c c') : EventRun c c' := by
  induction h with
  | refl => exact refl_of EventRun c
  | tail _ hstep ih =>
    refine trans_of EventRun ih ?_
    rcases eventRun_rules.machineStep (fun _ b => ⟨[.bus b], rfl⟩) (fun _ _ => eventRun_other rfl rfl rfl rfl) hstep with
      hr | ⟨m, hm, hret | hret⟩
    · exact hr
    · have hmret : EventRun m (mret m) := eventRun_other rfl rfl rfl rfl
      exact trans_of EventRun hm (trans_of EventRun hmret (eventRun_rules.core hret))
    · have hsret : EventRun m (sret m) := by
        obtain ⟨r, p, d, h, hr⟩ := sret_frame m
        rw [h]
        exact eventRun_other rfl rfl hr rfl
      exact trans_of EventRun hm (trans_of EventRun hsret (eventRun_rules.core hret))

end Events

/-! ## A write to a superpage -/

section Instances

local instance accessedDirtyNet : NetDevice := NetDevice.silent

/-- A fill, a load through it and a flush. -/
def filledAndFlushed : List MmuEvent := [.translate 0x40000000 .read, .load 0x40000123 4 .read, .sfence]

def flushedCpu : Cpu := filledAndFlushed.foldl MmuEvent.run superpageCpu

theorem filledAndFlushed_track : filledAndFlushed.foldl MmuEvent.track ⟨superpageCpu, False⟩ = ⟨flushedCpu, False⟩ := by
  show (⟨rv64TlbFlush ((MmuEvent.load 0x40000123 4 .read).track
    ((MmuEvent.translate 0x40000000 .read).track ⟨superpageCpu, False⟩)).cpu, False⟩ : EditState) = _
  rw [track_cpu, track_cpu]
  rfl

/-- The leaf of 0x40000000 has A and not D before the write. -/
theorem accessedDirty_superpage : LeafMarked (final (rv64Translate 0x40000123 .write flushedCpu)) 0x40000123 true := by
  have hmarks := accessedDirty_of_run (c := superpageCpu) rfl filledAndFlushed (by
    rw [filledAndFlushed_track]
    exact ⟨by decide +kernel, by decide +kernel⟩)
  rw [filledAndFlushed_track] at hmarks
  have hin : ¬ WalksOutside flushedCpu 0x40000123 .write := by
    rintro ⟨-, -, -, h⟩
    revert h
    decide +kernel
  have hreturns : ((rv64Translate 0x40000123 .write).run' flushedCpu).isSome = true := by decide +kernel
  cases hr : rv64Translate 0x40000123 .write flushedCpu with
  | ok pa c' =>
    refine hmarks.translate 0x40000123 .write pa c' hr ?_
    show ¬ (final (translateG editGhosts 0x40000123 .write ⟨flushedCpu, False⟩)).ghost
    unfold translateG ghosted
    dsimp only
    rw [hr]
    exact fun h => h.elim id hin
  | error exc c' =>
    unfold EStateM.run' EStateM.run at hreturns
    rw [hr] at hreturns
    cases hreturns

end Instances

end PgLinux
