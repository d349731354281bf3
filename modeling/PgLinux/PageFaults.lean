import PgLinux.GhostAccess
import PgLinux.TlbCoherence
/-!
# PageFaults — where an access stops

A translation that succeeds leaves its page in the TLB, so the rest of the page translates without a walk.  An access
that crosses a page therefore stops, if at all, at its first byte or at the first byte of the second page.
-/
namespace PgLinux

open Prog

/-! ## Pages -/

theorem vpnOf_toNat (va : U64) : (vpnOf va).toNat = va.toNat / 4096 := by
  unfold vpnOf
  rw [BitVec.toNat_ushiftRight, Nat.shiftRight_eq_div_pow]

theorem vpnOf_eq_iff {va va' : U64} : vpnOf va = vpnOf va' ↔ va.toNat / 4096 = va'.toNat / 4096 := by
  rw [← BitVec.toNat_inj, vpnOf_toNat, vpnOf_toNat]

/-- The bytes of the page from `va` on. -/
def pageRest (va : U64) : Nat := 4096 - (pageOffset va).toNat

theorem pageRest_eq (va : U64) : pageRest va = 4096 - va.toNat % 4096 := by
  unfold pageRest
  rw [pageOffset_toNat]

theorem pageRest_pos (va : U64) : 0 < pageRest va := by
  rw [pageRest_eq]
  omega

theorem crossesPage_iff {va : U64} {size : Nat} : crossesPage va size = true ↔ pageRest va < size := by
  unfold crossesPage
  rw [decide_eq_true_iff, pageRest_eq, pageOffset_toNat]
  omega

/-- **Bytes up to the next page are in the page**, and those of the next page are not. -/
theorem vpnOf_add {va : U64} {i : Nat} (hi : i < 4096) :
    vpnOf (va + BitVec.ofNat 64 i) = vpnOf va ↔ i < pageRest va := by
  have := va.isLt
  rw [vpnOf_eq_iff, pageRest_eq, BitVec.toNat_add, BitVec.toNat_ofNat]
  omega

/-! ## Translations of one page -/

/-- Only what is behind the bus. -/
def BusFrame (c c' : Cpu) : Prop := ∃ b, c' = { c with bus := b }

instance : IsPreorder Cpu BusFrame where
  refl c := ⟨c.bus, rfl⟩
  trans := by
    rintro c _ _ ⟨b, rfl⟩ ⟨b', rfl⟩
    exact ⟨b', rfl⟩

theorem leafAllows_bus {c c' : Cpu} (h : BusFrame c c') (access : AccessType) (level : Nat) (pte : U64) :
    leafAllows c' access level pte = leafAllows c access level pte := by
  obtain ⟨b, rfl⟩ := h
  rfl

theorem readPte_bus (a : U64) : Leads BusFrame (readPte a) := leads_readPte (fun _ _ _ => ⟨_, rfl⟩) a

theorem readPte_ok (a : U64) (c : Cpu) : ∃ pte c', readPte a c = .ok pte c' := by
  unfold readPte
  rw [get_bind_apply]
  split
  · exact ⟨_, _, rfl⟩
  · exact ⟨_, _, rfl⟩

section Translate

variable [NetDevice] {c c' : Cpu} {va va' pa pt exc : U64} {access : AccessType}

/-- The machine once a walk has ended in the leaf `pte`. -/
structure LeafFilled (c : Cpu) (va : U64) (access : AccessType) (level : Nat) (pte : U64) (c' : Cpu) : Prop where
  allowed : leafAllows c access level pte = true
  frame : ∃ b, c' = { c with
    bus := b, tlb := setAt c.tlb (tlbIndex va) (leafEntry c.ram_size va level pte (withAD pte access)) }

omit [NetDevice] in
theorem LeafFilled.bus {level : Nat} {pte : U64} {d : Cpu} (hb : BusFrame c d) (h : LeafFilled d va access level pte c') :
    LeafFilled c va access level pte c' := by
  obtain ⟨b, rfl⟩ := hb
  exact ⟨h.allowed, h.frame⟩

theorem walkLeaf_filled {level : Nat} {a pte : U64} (hok : leafAllows c access level pte = true)
    (h : walkLeaf va access level a pte c = .ok pa c') : LeafFilled c va access level pte c' := by
  refine ⟨hok, ?_⟩
  unfold walkLeaf at h
  dsimp only at h
  split at h
  · cases h
    exact ⟨_, rfl⟩
  · cases h
    exact ⟨c.bus, rfl⟩

/-- **A walk that returns has put its leaf in the TLB.** -/
theorem walk_filled : ∀ {n : Nat} {pt : U64} {c : Cpu}, walk va access n pt c = .ok pa c' →
    ∃ level pte, LeafFilled c va access level pte c'
  | 0, _, _, h => by cases h
  | level + 1, pt, c, h => by
    obtain ⟨pte, d, hread⟩ := readPte_ok (pteAddr pt va level) c
    have hbus := readPte_bus (pteAddr pt va level) c
    rw [hread] at hbus
    rw [walk_read hread] at h
    split at h
    · cases h
    · split at h
      · split at h
        next hok => exact ⟨level, pte, (walkLeaf_filled hok h).bus hbus⟩
        · cases h
      · obtain ⟨l, p, hfill⟩ := walk_filled h
        exact ⟨l, p, hfill.bus hbus⟩

theorem walkLeaf_ok (va : U64) (access : AccessType) (level : Nat) (a pte : U64) (c : Cpu) :
    ∃ pa c', walkLeaf va access level a pte c = .ok pa c' := by
  unfold walkLeaf
  dsimp only
  split
  · exact ⟨_, _, rfl⟩
  · exact ⟨_, _, rfl⟩

/-- **A walk stops only with the page fault of the access.** -/
theorem walk_error : ∀ {n : Nat} {pt : U64} {c : Cpu}, walk va access n pt c = .error exc c' → exc = faultCode access
  | 0, _, _, h => by cases h; rfl
  | level + 1, pt, c, h => by
    obtain ⟨pte, d, hread⟩ := readPte_ok (pteAddr pt va level) c
    rw [walk_read hread] at h
    split at h
    · cases h
      rfl
    · split at h
      · split at h
        · obtain ⟨pa, e, hok⟩ := walkLeaf_ok va access level (pteAddr pt va level) pte d
          rw [hok] at h
          cases h
        · cases h
          rfl
      · exact walk_error h

theorem rv64Translate_error (h : rv64Translate va access c = .error exc c') : exc = faultCode access := by
  by_cases hp : c.priv = privM
  · rw [rv64Translate_machine hp] at h
    cases h
  by_cases hs : satpMode c.csr.satp = satpModeBare
  · rw [rv64Translate_bare hs] at h
    cases h
  cases hl : tlbLookup c va access with
  | some q =>
    rw [rv64Translate_hit hp hs hl] at h
    cases h
  | none =>
    rw [rv64Translate_miss hp hs hl] at h
    exact walk_error h

omit [NetDevice] in
/-- The entry of a leaf allows what the leaf allowed, and a walk for a store leaves it dirty. -/
theorem leafEntry_allows {level : Nat} {pte : U64} (h : leafAllows c access level pte = true) (ramSize : U64) :
    tlbAllows c (leafEntry ramSize va level pte (withAD pte access)) access = true := by
  unfold leafAllows at h
  simp only [Bool.and_eq_true] at h
  obtain ⟨⟨hu, ha⟩, -⟩ := h
  have hU : pteU ((pte &&& permMask).setWidth 8) = pteU pte := perm_getLsbD (by decide) pte
  have hperm : accessOk c ((pte &&& permMask).setWidth 8) access = true := (accessOk_perm c pte access).trans ha
  have hdirty : (access != .write || (withAD pte access).getLsbD 7) = true := by
    cases access with
    | write => simp [withAD, pteD]
    | read => rfl
    | exec => rfl
  show (accessOk c ((pte &&& permMask).setWidth 8) access && (access != .write || (withAD pte access).getLsbD 7) &&
    privOk c (pteU ((pte &&& permMask).setWidth 8))) = true
  rw [hperm, hdirty, hU, hu]
  rfl

omit [NetDevice] in
theorem tlbLookup_page {d : Cpu} (hpage : vpnOf va' = vpnOf va) (hit : (d.tlbEntry va).hits va = true)
    (hallows : tlbAllows d (d.tlbEntry va) access = true) : ∃ pa', tlbLookup d va' access = some pa' := by
  have hentry : d.tlbEntry va' = d.tlbEntry va := by
    unfold Cpu.tlbEntry tlbIndex
    rw [hpage]
  have hit' : (d.tlbEntry va).hits va' = true := by
    unfold TlbEntry.hits at hit ⊢
    rw [hpage]
    exact hit
  unfold tlbLookup
  rw [hentry]
  dsimp only
  rw [hit', hallows]
  exact ⟨_, rfl⟩

omit [NetDevice] in
theorem LeafFilled.tlbLookup {level : Nat} {pte : U64} (h : LeafFilled c va access level pte c') (hpage : vpnOf va' = vpnOf va)
    {d : Cpu} (hd : BusFrame c' d) : ∃ pa', PgLinux.tlbLookup d va' access = some pa' := by
  obtain ⟨b, rfl⟩ := h.frame
  obtain ⟨b', rfl⟩ := hd
  have hentry : setAt c.tlb (tlbIndex va) (leafEntry c.ram_size va level pte (withAD pte access)) (tlbIndex va) =
      leafEntry c.ram_size va level pte (withAD pte access) := if_pos rfl
  refine tlbLookup_page hpage ?_ ?_ <;> unfold Cpu.tlbEntry <;> dsimp only <;> rw [hentry]
  · simp [TlbEntry.hits, leafEntry]
  · exact leafEntry_allows h.allowed c.ram_size

/-- **A page that was translated translates again**, without a walk. -/
theorem translate_again (h : rv64Translate va access c = .ok pa c') (hpage : vpnOf va' = vpnOf va) {d : Cpu}
    (hd : BusFrame c' d) : ∃ pa', rv64Translate va' access d = .ok pa' d := by
  by_cases hp : c.priv = privM
  · rw [rv64Translate_machine hp] at h
    cases h
    obtain ⟨b, rfl⟩ := hd
    exact ⟨va', rv64Translate_machine (by exact hp) va' access⟩
  by_cases hs : satpMode c.csr.satp = satpModeBare
  · rw [rv64Translate_bare hs] at h
    cases h
    obtain ⟨b, rfl⟩ := hd
    exact ⟨va', rv64Translate_bare (by exact hs) va' access⟩
  cases hl : tlbLookup c va access with
  | some q =>
    rw [rv64Translate_hit hp hs hl] at h
    cases h
    obtain ⟨b, rfl⟩ := hd
    obtain ⟨hc, -⟩ := Option.ite_none_right_eq_some.1 hl
    rw [Bool.and_eq_true] at hc
    obtain ⟨pa', hpa⟩ := tlbLookup_page (d := { c with bus := b }) hpage hc.1 hc.2
    exact ⟨pa', rv64Translate_hit (by exact hp) (by exact hs) hpa⟩
  | none =>
    rw [rv64Translate_miss hp hs hl] at h
    obtain ⟨level, pte, hfill⟩ := walk_filled h
    obtain ⟨pa', hpa⟩ := hfill.tlbLookup hpage hd
    obtain ⟨b, rfl⟩ := hfill.frame
    obtain ⟨b', rfl⟩ := hd
    exact ⟨pa', rv64Translate_hit (by exact hp) (by exact hs) hpa⟩

end Translate

/-! ## Accesses, with a ghost -/

section Bytes

variable {G : Type} (γ : Ghosts G) [NetDevice] {s t : Ghosted G} {va val exc : U64} {access : AccessType}

/-- Byte `i` of an access is the first of a page. -/
def StartsPage (va : U64) (i : Nat) : Prop := vpnOf (va + BitVec.ofNat 64 i) ≠ vpnOf (va + BitVec.ofNat 64 (i - 1))

/-- A translation that fails after the one of the byte before is on another page. -/
theorem startsPage_next {i : Nat} {pa : U64} {s₁ s₂ : Ghosted G}
    (h : translateG γ (va + BitVec.ofNat 64 i) access s = .ok pa s₁) (hbus : BusFrame s₁.cpu s₂.cpu)
    (he : translateG γ (va + BitVec.ofNat 64 (i + 1)) access s₂ = .error exc t) : StartsPage va (i + 1) := by
  intro hpage
  obtain ⟨c, hc, rfl⟩ := ghosted_eq_ok.1 h
  obtain ⟨d, hd, rfl⟩ := ghosted_eq_error.1 he
  obtain ⟨pa', hok⟩ := translate_again hc hpage hbus
  rw [hok] at hd
  cases hd

omit [NetDevice] in
theorem busLoadG_ok (pa : U64) (size : Nat) (s : Ghosted G) :
    ∃ v s', busLoadG γ pa size s = .ok v s' ∧ BusFrame s.cpu s'.cpu := ⟨_, _, rfl, _, rfl⟩

theorem busStoreG_ok (pa : U64) (size : Nat) (val : U64) (s : Ghosted G) :
    ∃ s', busStoreG γ pa size val s = .ok () s' ∧ BusFrame s.cpu s'.cpu := ⟨_, rfl, _, rfl⟩

/-- **A load that crosses a page stops at its first byte, or at the first byte of a page.** -/
theorem loadBytesG_stops : ∀ {n i : Nat} {r : U64} {s : Ghosted G}, loadBytesG γ va access n i r s = .error exc t →
    ∃ j r' s', j < n ∧ loadBytesG γ va access j i r s = .ok r' s' ∧
      translateG γ (va + BitVec.ofNat 64 (i + j)) access s' = .error exc t ∧ (j = 0 ∨ StartsPage va (i + j))
  | 0, _, _, _, h => by cases h
  | n + 1, i, r, s, h => by
    unfold loadBytesG at h
    rcases bind_eq_error.1 h with he | ⟨pa, s₁, htr, h⟩
    · exact ⟨0, r, s, by omega, rfl, he, .inl rfl⟩
    obtain ⟨v, s₂, hload, hbus⟩ := busLoadG_ok γ pa 1 s₁
    rw [bind_of_ok hload] at h
    obtain ⟨j, r', s', hj, hrun, he, hstart⟩ := loadBytesG_stops h
    have hindex : i + 1 + j = i + (j + 1) := by omega
    rw [hindex] at he hstart
    refine ⟨j + 1, r', s', by omega, ?_, he, .inr ?_⟩
    · unfold loadBytesG
      rw [bind_of_ok htr, bind_of_ok hload]
      exact hrun
    · obtain rfl | hstart := hstart
      · cases hrun
        exact startsPage_next γ htr hbus he
      · exact hstart

/-- **So does a store.** -/
theorem storeBytesG_stops : ∀ {n i : Nat} {s : Ghosted G}, storeBytesG γ va val n i s = .error exc t →
    ∃ j s', j < n ∧ storeBytesG γ va val j i s = .ok () s' ∧
      translateG γ (va + BitVec.ofNat 64 (i + j)) .write s' = .error exc t ∧ (j = 0 ∨ StartsPage va (i + j))
  | 0, _, _, h => by cases h
  | n + 1, i, s, h => by
    unfold storeBytesG at h
    rcases bind_eq_error.1 h with he | ⟨pa, s₁, htr, h⟩
    · exact ⟨0, s, by omega, rfl, he, .inl rfl⟩
    obtain ⟨s₂, hstore, hbus⟩ := busStoreG_ok γ pa 1 ((val >>> (i * 8)) &&& 0xFF) s₁
    rw [bind_of_ok hstore] at h
    obtain ⟨j, s', hj, hrun, he, hstart⟩ := storeBytesG_stops h
    have hindex : i + 1 + j = i + (j + 1) := by omega
    rw [hindex] at he hstart
    refine ⟨j + 1, s', by omega, ?_, he, .inr ?_⟩
    · unfold storeBytesG
      rw [bind_of_ok htr, bind_of_ok hstore]
      exact hrun
    · obtain rfl | hstart := hstart
      · cases hrun
        exact startsPage_next γ htr hbus he
      · exact hstart

theorem loadBytesG_first {n : Nat} {r r' : U64} (hn : 0 < n) (h : loadBytesG γ va access n 0 r s = .ok r' t) :
    ∃ pa c, rv64Translate va access s.cpu = .ok pa c := by
  obtain ⟨k, rfl⟩ : ∃ k, n = k + 1 := ⟨n - 1, by omega⟩
  unfold loadBytesG at h
  obtain ⟨pa, s₁, htr, -⟩ := bind_eq_ok.1 h
  rw [BitVec.add_zero] at htr
  obtain ⟨c, hc, -⟩ := ghosted_eq_ok.1 htr
  exact ⟨pa, c, hc⟩

theorem storeBytesG_first {n : Nat} (hn : 0 < n) (h : storeBytesG γ va val n 0 s = .ok () t) :
    ∃ pa c, rv64Translate va .write s.cpu = .ok pa c := by
  obtain ⟨k, rfl⟩ : ∃ k, n = k + 1 := ⟨n - 1, by omega⟩
  unfold storeBytesG at h
  obtain ⟨pa, s₁, htr, -⟩ := bind_eq_ok.1 h
  rw [BitVec.add_zero] at htr
  obtain ⟨c, hc, -⟩ := ghosted_eq_ok.1 htr
  exact ⟨pa, c, hc⟩

/-- A store goes on from where its first bytes were stored. -/
theorem storeBytesG_after (k : Nat) : ∀ {n i : Nat} {s : Ghosted G}, storeBytesG γ va val n i s = .ok () t →
    storeBytesG γ va val (n + k) i s = storeBytesG γ va val k (i + n) t
  | 0, i, s, h => by
    cases h
    rw [Nat.zero_add]
    rfl
  | n + 1, i, s, h => by
    unfold storeBytesG at h
    obtain ⟨pa, s₁, htr, h⟩ := bind_eq_ok.1 h
    obtain ⟨_, s₂, hstore, h⟩ := bind_eq_ok.1 h
    have hcount : n + 1 + k = n + k + 1 := by omega
    have hindex : i + (n + 1) = i + 1 + n := by omega
    rw [hcount, hindex, ← storeBytesG_after k h]
    show (do
      let pa ← translateG γ (va + BitVec.ofNat 64 i) .write
      busStoreG γ pa 1 ((val >>> (i * 8)) &&& 0xFF)
      storeBytesG γ va val (n + k) (i + 1)) s = _
    rw [bind_of_ok htr, bind_of_ok hstore]

omit [NetDevice] in
/-- The one page boundary inside a short access. -/
theorem StartsPage.eq {i : Nat} (h : StartsPage va i) (hi : 0 < i) (hlt : i < 4096) : i = pageRest va := by
  have hprev : i - 1 < 4096 := by omega
  have hrest := pageRest_eq va
  unfold StartsPage at h
  rw [Ne, vpnOf_eq_iff, BitVec.toNat_add, BitVec.toNat_add, BitVec.toNat_ofNat, BitVec.toNat_ofNat] at h
  omega

/-- **A load that stops** fails to translate its first byte, or has loaded the first page and fails to translate the
second. -/
theorem loadG_stops {size : Nat} (hsize : size ≤ 4096) (h : loadG γ va size access s = .error exc t) :
    translateG γ va access s = .error exc t ∨ crossesPage va size = true ∧
      ∃ r s', loadBytesG γ va access (pageRest va) 0 0 s = .ok r s' ∧
        translateG γ (va + BitVec.ofNat 64 (pageRest va)) access s' = .error exc t := by
  cases hfast : loadFast s.cpu va size access with
  | some p =>
    rw [loadG_hit γ hfast] at h
    cases h
  | none =>
    rw [loadG_miss γ hfast] at h
    split at h
    next hcross =>
      obtain ⟨j, r', s', hj, hrun, he, hstart⟩ := loadBytesG_stops γ h
      rw [Nat.zero_add] at he hstart
      by_cases hzero : j = 0
      · subst hzero
        cases hrun
        rw [BitVec.add_zero] at he
        exact .inl he
      · obtain rfl := (hstart.resolve_left hzero).eq (by omega) (by omega)
        exact .inr ⟨hcross, r', s', hrun, he⟩
    next =>
      rcases bind_eq_error.1 h with he | ⟨pa, s₁, -, h⟩
      · exact .inl he
      · cases h

/-- **A store that stops** fails to translate its first byte, or has stored the first page and fails to translate the
second. -/
theorem storeAtG_stops {size : Nat} (hsize : size ≤ 4096) (h : storeAtG γ va size val s = .error exc t) :
    translateG γ va .write s = .error exc t ∨ crossesPage va size = true ∧
      ∃ s', storeBytesG γ va val (pageRest va) 0 s = .ok () s' ∧
        translateG γ (va + BitVec.ofNat 64 (pageRest va)) .write s' = .error exc t := by
  cases hfast : storeFast s.cpu va size with
  | some p =>
    rw [storeAtG_hit γ hfast] at h
    cases h
  | none =>
    rw [storeAtG_miss γ hfast] at h
    split at h
    next hcross =>
      obtain ⟨j, s', hj, hrun, he, hstart⟩ := storeBytesG_stops γ h
      rw [Nat.zero_add] at he hstart
      by_cases hzero : j = 0
      · subst hzero
        cases hrun
        rw [BitVec.add_zero] at he
        exact .inl he
      · obtain rfl := (hstart.resolve_left hzero).eq (by omega) (by omega)
        exact .inr ⟨hcross, s', hrun, he⟩
    next =>
      rcases bind_eq_error.1 h with he | ⟨pa, s₁, -, h⟩
      · exact .inl he
      · cases h

end Bytes

end PgLinux
