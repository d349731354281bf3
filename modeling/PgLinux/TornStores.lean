import PgLinux.PageFaults
/-!
# TornStores — stores that stop halfway

A store that crosses a page is made byte by byte, each byte translated just before it is written.  When the second page
faults, the bytes of the first are in memory already.
-/
namespace PgLinux

open Prog

/-- Whether a data write changed something behind the bus; the marks of a walk are no data. -/
def writeGhosts : Ghosts Prop where
  translate _ _ _ _ _ g := g
  fast _ _ _ c c' g := g ∨ c'.bus ≠ c.bus
  bus _ c c' g := g ∨ c'.bus ≠ c.bus

/-- A change that was seen stays seen. -/
def ChangeSeen (s t : Ghosted Prop) : Prop := s.ghost → t.ghost

instance : IsPreorder (Ghosted Prop) ChangeSeen where
  refl _ := id
  trans _ _ _ h h' := h' ∘ h

section Stores

variable [NetDevice] {va val exc : U64} {size : Nat} {c : Cpu} {s t : Ghosted Prop}

/-- The data writes of a store change a byte of RAM or a device. -/
def StoreWrites (va : U64) (size : Nat) (val : U64) (c : Cpu) : Prop :=
  (final (storeG writeGhosts va size val ⟨c, False⟩)).ghost

/-- A store that stops has written nothing. -/
def AllOrNothing (va : U64) (size : Nat) (val : U64) (c : Cpu) : Prop :=
  ∀ exc c', cpuStore va size val c = .error exc c' → ¬ StoreWrites va size val c

/-- The store crosses a page, its bytes on the first page change something, and the second page faults. -/
def Torn (va : U64) (size : Nat) (val : U64) (c : Cpu) : Prop :=
  crossesPage va size = true ∧
    ∃ s exc d, storeBytesG writeGhosts va val (pageRest va) 0 ⟨logStore va size val c, False⟩ = .ok () s ∧ s.ghost ∧
      rv64Translate (va + BitVec.ofNat 64 (pageRest va)) .write s.cpu = .error exc d

omit [NetDevice] in
theorem storeFast_crossing (h : crossesPage va size = true) : storeFast c va size = none := by
  unfold storeFast
  simp [h]

/-- A store whose second page faults stops there. -/
theorem storeG_second (hcross : crossesPage va size = true) {d : Cpu}
    (hrun : storeBytesG writeGhosts va val (pageRest va) 0 ⟨logStore va size val c, False⟩ = .ok () s)
    (he : rv64Translate (va + BitVec.ofNat 64 (pageRest va)) .write s.cpu = .error exc d) :
    storeG writeGhosts va size val ⟨c, False⟩ = .error exc ⟨d, s.ghost⟩ := by
  obtain ⟨k, hk⟩ : ∃ k, size = pageRest va + (k + 1) := ⟨size - pageRest va - 1, by
    have := crossesPage_iff.1 hcross
    omega⟩
  rw [storeG_logged, storeAtG_miss writeGhosts (storeFast_crossing hcross), if_pos hcross]
  nth_rewrite 1 [hk]
  rw [storeBytesG_after writeGhosts (k + 1) hrun, Nat.zero_add]
  have htr : translateG writeGhosts (va + BitVec.ofNat 64 (pageRest va)) .write s = .error exc ⟨d, s.ghost⟩ :=
    ghosted_of_error he
  unfold storeBytesG
  exact bind_of_error htr

/-- A torn store has written. -/
theorem Torn.writes (h : Torn va size val c) : StoreWrites va size val c ∧ ∃ exc c', cpuStore va size val c = .error exc c' := by
  obtain ⟨hcross, s, exc, d, hrun, hghost, he⟩ := h
  have hstop := storeG_second hcross hrun he
  have herase := erases_store writeGhosts va size val ⟨c, False⟩
  rw [hstop] at herase
  refine ⟨?_, exc, d, herase.symm⟩
  unfold StoreWrites
  rw [hstop]
  exact hghost

theorem Torn.not_allOrNothing (h : Torn va size val c) : ¬ AllOrNothing va size val c := by
  obtain ⟨hwrites, exc, c', hstop⟩ := h.writes
  exact fun hall => hall exc c' hstop hwrites

/-- Nothing else that stops has. -/
theorem torn_of_writes (hsize : size ≤ 4096) {c' : Cpu} (hstop : cpuStore va size val c = .error exc c')
    (hwrites : StoreWrites va size val c) : Torn va size val c := by
  obtain ⟨t, ht, -⟩ := (erases_store writeGhosts va size val).error (s := ⟨c, False⟩) hstop
  unfold StoreWrites at hwrites
  rw [ht] at hwrites
  rw [storeG_logged] at ht
  rcases storeAtG_stops writeGhosts hsize ht with he | ⟨hcross, s, hrun, he⟩
  · obtain ⟨d, -, rfl⟩ := ghosted_eq_error.1 he
    exact hwrites.elim
  · obtain ⟨d, hd, rfl⟩ := ghosted_eq_error.1 he
    exact ⟨hcross, s, exc, d, hrun, hwrites, hd⟩

/-- **A store is all or nothing exactly when it is not torn between two pages.** -/
theorem allOrNothing_iff (hsize : size ≤ 4096) (val : U64) (c : Cpu) : AllOrNothing va size val c ↔ ¬ Torn va size val c := by
  refine ⟨fun hall htorn => htorn.not_allOrNothing hall, fun htorn exc c' hstop hwrites => ?_⟩
  exact htorn (torn_of_writes hsize hstop hwrites)

theorem changeSeen_rules : GhostRules writeGhosts ChangeSeen where
  translate va access s := by
    obtain ⟨v, hfin⟩ := final_ghosted (writeGhosts.translate va access) (rv64Translate va access) s
    unfold translateG
    rw [hfin]
    exact id
  busLoad _ _ _ := .inl
  busStore _ _ _ _ := .inl

/-- A first byte that changes something is a data write. -/
theorem storeBytesG_writes {n : Nat} (h : storeBytesG writeGhosts va val (n + 1) 0 s = .ok () t)
    (hw : ∀ pa d, rv64Translate va .write s.cpu = .ok pa d → busStore d.ram_size d.bus pa 1 (val &&& 0xFF) ≠ d.bus) :
    t.ghost := by
  unfold storeBytesG at h
  obtain ⟨pa, s₁, htr, h⟩ := bind_eq_ok.1 h
  rw [BitVec.add_zero] at htr
  obtain ⟨d, hd, rfl⟩ := ghosted_eq_ok.1 htr
  obtain ⟨_, s₂, hstore, h⟩ := bind_eq_ok.1 h
  have hrise := changeSeen_rules.storeBytes va val n 1 s₂
  rw [Nat.zero_add] at h
  rw [h] at hrise
  cases hstore
  exact hrise (.inr (hw pa d hd))

end Stores

section Crossing

local instance tornNet : NetDevice := NetDevice.silent

/-- The machine, and its ghost, once the last four bytes of the page that is mapped were stored. -/
@[irreducible] def firstPageStored : Ghosted Prop :=
  final (storeBytesG writeGhosts 0x7FFFFFFC 0xFFFFFFFFFFFFFFFF 4 0 ⟨superpageCpu, False⟩)

theorem firstPageStored_run : storeBytesG writeGhosts 0x7FFFFFFC 0xFFFFFFFFFFFFFFFF 4 0 ⟨superpageCpu, False⟩ =
    .ok () firstPageStored := by
  unfold firstPageStored
  exact eq_ok_of_answer (by decide +kernel)

theorem firstPageStored_ghost : firstPageStored.ghost := by
  have htr : rv64Translate 0x7FFFFFFC .write superpageCpu =
      .ok 0xBFFFFFFC (final (rv64Translate 0x7FFFFFFC .write superpageCpu)) := eq_ok_of_answer (by decide +kernel)
  refine @storeBytesG_writes _ _ _ _ firstPageStored 3 firstPageStored_run fun pa d hd hsame => ?_
  cases htr.symm.trans hd
  have hbefore : (final (rv64Translate 0x7FFFFFFC .write superpageCpu)).bus.mem.ram 0x3FFFFFFC = 0 := by decide +kernel
  rw [← hsame] at hbefore
  revert hbefore
  decide +kernel

theorem secondPage_faults : rv64Translate (0x7FFFFFFC + BitVec.ofNat 64 4) .write firstPageStored.cpu =
    .error excStorePageFault (final (rv64Translate (0x7FFFFFFC + BitVec.ofNat 64 4) .write firstPageStored.cpu)) :=
  eq_error_of_failure (by decide +kernel)

theorem torn_crossing : Torn 0x7FFFFFFC 8 0xFFFFFFFFFFFFFFFF superpageCpu := by
  have hlog : logStore 0x7FFFFFFC 8 0xFFFFFFFFFFFFFFFF superpageCpu = superpageCpu := if_neg (by decide)
  have hrest : pageRest 0x7FFFFFFC = 4 := by decide
  unfold Torn
  rw [hlog, hrest]
  exact ⟨by decide, firstPageStored, _, _, firstPageStored_run, firstPageStored_ghost, secondPage_faults⟩

/-- Four bytes are written, then the store stops. -/
theorem not_allOrNothing_crossing : ∃ va size val c, size ∈ [1, 2, 4, 8] ∧ ¬ AllOrNothing va size val c :=
  ⟨_, _, _, _, by decide, torn_crossing.not_allOrNothing⟩

/-- A store inside a page. -/
theorem allOrNothing_inside : AllOrNothing 0x80000000 8 1 superpageCpu :=
  (allOrNothing_iff (by decide) 1 superpageCpu).2 fun h => absurd h.1 (by decide)

end Crossing

end PgLinux
