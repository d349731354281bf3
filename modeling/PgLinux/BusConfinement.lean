import PgLinux.FaultAddress
/-!
# BusConfinement — what `bus_load` and `bus_store` touch of the RAM buffer

The bus looks at the first byte of an access only.  An access inside a page cannot leave a buffer of whole pages, and
the guest's are all of that kind: a load or store that crosses a page is made byte by byte, and the entries of a page
table are aligned.  `vm_physpeek` takes any address.
-/
namespace PgLinux

open Prog

/-! ## RamTouched bytes -/

/-- A range of the RAM buffer. -/
structure RamTouch where
  offset : Nat
  size : Nat

def RamTouch.Inside (ramSize : U64) (t : RamTouch) : Prop := t.offset + t.size ≤ ramSize.toNat

/-- What a bus access touches: the range `ram + offset`, if its first byte is in RAM. -/
def busTouch (ramSize pa : U64) (size : Nat) : List RamTouch :=
  if inRam ramSize pa then [⟨(pa - ramBase).toNat, size⟩] else []

/-- Guest RAM is a number of pages and ends below the top of the address space. -/
structure WholePages (ramSize : U64) : Prop where
  pages : ramSize.toNat % 4096 = 0
  fits : ramBase.toNat + ramSize.toNat < 2 ^ 64

/-- The access starts in RAM and extends past its end. -/
def PastEnd (ramSize pa : U64) (size : Nat) : Prop :=
  ramBase.toNat ≤ pa.toNat ∧ pa.toNat < ramBase.toNat + ramSize.toNat ∧ ramBase.toNat + ramSize.toNat < pa.toNat + size

theorem inRam_iff {ramSize : U64} (h : WholePages ramSize) (pa : U64) :
    inRam ramSize pa = true ↔ ramBase.toNat ≤ pa.toNat ∧ pa.toNat < ramBase.toNat + ramSize.toNat := by
  have hend : (ramBase + ramSize).toNat = ramBase.toNat + ramSize.toNat := by
    rw [BitVec.toNat_add]
    exact Nat.mod_eq_of_lt h.fits
  unfold inRam inRange
  rw [Bool.and_eq_true, decide_eq_true_iff, decide_eq_true_iff, BitVec.le_def, BitVec.lt_def, hend]

theorem busTouch_inside_iff {ramSize : U64} (h : WholePages ramSize) (pa : U64) (size : Nat) :
    (∀ t ∈ busTouch ramSize pa size, t.Inside ramSize) ↔ ¬ PastEnd ramSize pa size := by
  unfold busTouch PastEnd
  by_cases hin : inRam ramSize pa = true
  · have hbounds := (inRam_iff h pa).1 hin
    have hoff : (pa - ramBase).toNat = pa.toNat - ramBase.toNat := by
      rw [BitVec.toNat_sub]
      omega
    simp only [hin, if_true, List.mem_singleton, forall_eq, hoff, hbounds, true_and, Nat.not_lt]
    show pa.toNat - ramBase.toNat + size ≤ ramSize.toNat ↔ _
    omega
  · rw [if_neg hin]
    have hout : ¬ (ramBase.toNat ≤ pa.toNat ∧ pa.toNat < ramBase.toNat + ramSize.toNat) := hin ∘ (inRam_iff h pa).2
    simp
    omega

/-- **An access inside a page** stays in the buffer. -/
theorem busTouch_page {ramSize pa : U64} {size : Nat} (h : WholePages ramSize) (hpage : pa.toNat % 4096 + size ≤ 4096) :
    ∀ t ∈ busTouch ramSize pa size, t.Inside ramSize := by
  refine (busTouch_inside_iff h pa size).2 fun hpast => ?_
  obtain ⟨-, hlt, hend⟩ := hpast
  have hpages := h.pages
  have hbase : ramBase.toNat = 524288 * 4096 := rfl
  omega

/-! ## The walk, with what it touches -/

/-- A machine, and what its bus accesses have touched. -/
abbrev RamTouched := Ghosted (List RamTouch)

section Programs

variable [NetDevice]

/-- `readPte`: the read of an entry in RAM is made inline, after a check of its own. -/
def readPteT (a : U64) : EStateM U64 RamTouched U64 :=
  ghosted (fun _ c _ l => if pteInRam c.ram_size a then l ++ [⟨(a - ramBase).toNat, 8⟩] else l ++ busTouch c.ram_size a 8)
    (readPte a)

def walkLeafT (va : U64) (access : AccessType) (level : Nat) (a pte : U64) : EStateM U64 RamTouched U64 :=
  ghosted (fun _ c _ l => if withAD pte access ≠ pte then l ++ busTouch c.ram_size a 8 else l) (walkLeaf va access level a pte)

def walkT (va : U64) (access : AccessType) : Nat → U64 → EStateM U64 RamTouched U64
  | 0, _ => throw (faultCode access)
  | level + 1, ptAddr => do
    let a := pteAddr ptAddr va level
    let pte ← readPteT a
    if !pteV pte || pteReserved pte then throw (faultCode access)
    else if pteLeaf pte then do
      if leafAllows (← get).cpu access level pte then walkLeafT va access level a pte else throw (faultCode access)
    else walkT va access level (nextTable pte)

def translateT (va : U64) (access : AccessType) : EStateM U64 RamTouched U64 := do
  let s ← get
  if s.cpu.priv = privM then return va
  else if satpMode s.cpu.csr.satp = satpModeBare then return va
  else
    match tlbLookup s.cpu va access with
    | some pa => return pa
    | none => walkT va access 3 (rootTable s.cpu.csr.satp)

theorem erases_walk (va : U64) (access : AccessType) : ∀ (n : Nat) (pt : U64),
    Erases (walkT va access n pt) (walk va access n pt)
  | 0, _ => fun _ => rfl
  | level + 1, pt => by
    intro s
    obtain ⟨pte, d, hread⟩ := readPte_ok (pteAddr pt va level) s.cpu
    obtain ⟨t, ht, rfl⟩ : ∃ t, readPteT (pteAddr pt va level) s = .ok pte t ∧ t.cpu = d := (erases_ghosted _ _).ok hread
    rw [walk_read hread]
    unfold walkT
    rw [bind_of_ok ht]
    by_cases hbad : (!pteV pte || pteReserved pte) = true
    · rw [if_pos hbad, if_pos hbad]
      rfl
    rw [if_neg hbad, if_neg hbad]
    by_cases hleaf : pteLeaf pte = true
    · rw [if_pos hleaf, if_pos hleaf, get_bind_apply]
      by_cases hok : leafAllows t.cpu access level pte = true
      · rw [if_pos hok, if_pos hok]
        exact erases_ghosted _ _ t
      · rw [if_neg hok, if_neg hok]
        rfl
    · rw [if_neg hleaf, if_neg hleaf]
      exact erases_walk va access level (nextTable pte) t

/-- **The translation with its touches is the translation.** -/
theorem erases_translate (va : U64) (access : AccessType) : Erases (translateT va access) (rv64Translate va access) := by
  intro s
  unfold translateT rv64Translate
  rw [get_bind_apply, get_bind_apply]
  split
  · rfl
  · split
    · rfl
    · cases tlbLookup s.cpu va access with
      | some pa => rfl
      | none => exact erases_walk va access 3 _ s

end Programs

/-! ## Accesses of the guest -/

section Guest

variable [NetDevice]

/-- The touches of an access whose bus accesses are all of `n` bytes; its fast path does not use the bus. -/
def touchGhosts (n : Nat) : Ghosts (List RamTouch) where
  translate va access _ c _ l := (final (translateT va access ⟨c, l⟩)).ghost
  fast _ _ _ _ _ l := l
  bus pa c _ l := l ++ busTouch c.ram_size pa n

/-- An access is made whole, or byte by byte if it crosses a page. -/
def MemOp.busSize (op : MemOp) : Nat := if crossesPage op.va op.size then 1 else op.size

def MemOp.touches : MemOp → Cpu → List RamTouch
  | .load va size access, c =>
    (final (loadG (touchGhosts (MemOp.load va size access).busSize) va size access ⟨c, []⟩)).ghost
  | .store va size val, c =>
    (final (storeG (touchGhosts (MemOp.store va size val).busSize) va size val ⟨c, []⟩)).ghost

def AllInside (s : RamTouched) : Prop := ∀ t ∈ s.ghost, t.Inside s.cpu.ram_size

/-- A step that stays in the buffer. -/
structure InsideMove (s t : RamTouched) : Prop where
  ram : t.cpu.ram_size = s.cpu.ram_size
  inside : WholePages s.cpu.ram_size → AllInside s → AllInside t

instance : IsPreorder RamTouched InsideMove where
  refl _ := ⟨rfl, fun _ => id⟩
  trans := by
    intro s t u h h'
    refine ⟨h'.ram.trans h.ram, fun hw hs => h'.inside ?_ (h.inside hw hs)⟩
    rw [h.ram]
    exact hw

omit [NetDevice] in
/-- A part of an access that touches what is in the buffer only. -/
theorem insideMove_ghosted {α : Type} {g : Option α → Cpu → Cpu → List RamTouch → List RamTouch} {m : Access α}
    (hram : ∀ c, (final (m c)).ram_size = c.ram_size)
    (hg : ∀ v c c' l, WholePages c.ram_size → ∀ t ∈ g v c c' l, t ∈ l ∨ t.Inside c.ram_size) :
    Leads InsideMove (ghosted g m) := by
  intro s
  obtain ⟨v, hfin⟩ := final_ghosted g m s
  rw [hfin]
  refine ⟨hram s.cpu, fun hw hs t ht => ?_⟩
  show t.Inside (final (m s.cpu)).ram_size
  rw [hram]
  exact (hg _ _ _ _ hw t ht).elim (hs t) id

omit [NetDevice] in
theorem pteAddr_page {pt : U64} (h : IsTable pt) (va : U64) (level : Nat) : (pteAddr pt va level).toNat % 4096 + 8 ≤ 4096 := by
  obtain ⟨ha, hv⟩ := pteAddr_toNat h va level
  have hpage := h.1
  omega

omit [NetDevice] in
theorem readPteT_inside {pt : U64} (h : IsTable pt) (va : U64) (level : Nat) :
    Leads InsideMove (readPteT (pteAddr pt va level)) := by
  refine insideMove_ghosted (fun c => ?_) fun _ c _ l hw t ht => ?_
  · obtain ⟨b, hb⟩ := readPte_bus (pteAddr pt va level) c
    rw [hb]
  · split at ht
    next hin =>
      rw [List.mem_append, List.mem_singleton] at ht
      refine ht.imp_right ?_
      rintro rfl
      have hoff := (pteAddr_ok h hin).offset
      have hfits := (pteAddr_ok h hin).fits
      have hbase := (pteAddr_ok h hin).base
      have hend : (ramBase + c.ram_size).toNat ≤ ramBase.toNat + c.ram_size.toNat := by
        rw [BitVec.toNat_add]
        exact Nat.mod_le _ _
      show (pteAddr pt va level - ramBase).toNat + 8 ≤ c.ram_size.toNat
      omega
    · exact (List.mem_append.1 ht).imp_right (busTouch_page hw (pteAddr_page h va level) t)

theorem walkLeafT_inside {pt : U64} (h : IsTable pt) (va : U64) (access : AccessType) (level : Nat) (pte : U64) :
    Leads InsideMove (walkLeafT va access level (pteAddr pt va level) pte) := by
  refine insideMove_ghosted (fun c => ?_) fun _ c _ l hw t ht => ?_
  · unfold walkLeaf
    dsimp only
    split <;> rfl
  · split at ht
    · exact (List.mem_append.1 ht).imp_right (busTouch_page hw (pteAddr_page h va level) t)
    · exact .inl ht

theorem walkT_inside (va : U64) (access : AccessType) : ∀ (n : Nat) {pt : U64}, IsTable pt →
    Leads InsideMove (walkT va access n pt)
  | 0, _, _ => leads_throw _
  | level + 1, pt, h => by
    unfold walkT
    refine leads_bind (readPteT_inside h va level) fun pte => leads_ite (leads_throw _) (leads_ite ?_ ?_)
    · exact leads_get_bind fun s => leads_ite (walkLeafT_inside h va access level pte) (leads_throw _)
    · exact walkT_inside va access level (nextTable_isTable pte)

/-- **A translation stays in the buffer.** -/
theorem translateT_inside (va : U64) (access : AccessType) : Leads InsideMove (translateT va access) := by
  unfold translateT
  refine leads_get_bind fun s => leads_ite (leads_pure _) (leads_ite (leads_pure _) ?_)
  split
  · exact leads_pure _
  · exact walkT_inside va access 3 (rootTable_isTable _)

theorem translateG_inside (n : Nat) (va : U64) (access : AccessType) : Leads InsideMove (translateG (touchGhosts n) va access) := by
  intro s
  have hmove := translateT_inside va access s
  obtain ⟨v, hfin⟩ := final_ghosted ((touchGhosts n).translate va access) (rv64Translate va access) s
  have hcpu := (erases_translate va access).final s
  unfold translateG
  rw [hfin, ← hcpu]
  exact hmove

/-- So does a bus access whose address is far enough from the end of its page. -/
theorem busLoadG_inside {n size : Nat} {pa : U64} (hpage : pa.toNat % 4096 + n ≤ 4096) :
    Leads InsideMove (busLoadG (touchGhosts n) pa size) :=
  insideMove_ghosted (fun _ => rfl) fun _ _ _ _ hw t ht => (List.mem_append.1 ht).imp_right (busTouch_page hw hpage t)

theorem busStoreG_inside {n size : Nat} {pa : U64} (hpage : pa.toNat % 4096 + n ≤ 4096) (val : U64) :
    Leads InsideMove (busStoreG (touchGhosts n) pa size val) :=
  insideMove_ghosted (fun _ => rfl) fun _ _ _ _ hw t ht => (List.mem_append.1 ht).imp_right (busTouch_page hw hpage t)

/-- One byte never crosses a page. -/
theorem insideMove_rules : GhostRules (touchGhosts 1) InsideMove where
  translate := translateG_inside 1
  busLoad pa size := busLoadG_inside (by omega)
  busStore pa size val := busStoreG_inside (by omega) val

omit [NetDevice] in
theorem tlbEntry_pa_offset (te : TlbEntry) (va : U64) : pageOffset (te.pa va) = pageOffset va := by
  have hppn : te.ppn <<< 12 &&& 0xFFF = 0#64 := by
    refine BitVec.eq_of_getLsbD_eq fun i hi => ?_
    rw [BitVec.getLsbD_and, BitVec.getLsbD_shiftLeft, offsetMask_getLsbD]
    by_cases h12 : i < 12 <;> simp [h12]
  have hmask : levelMask te.level &&& 0xFFF = 0xFFF := by
    unfold levelMask
    split
    · rfl
    · split <;> rfl
  unfold TlbEntry.pa pageOffset
  rw [BitVec.and_or_distrib_right, hppn, BitVec.zero_or, BitVec.and_assoc, hmask]

theorem walk_offset {va pa : U64} {access : AccessType} {c' : Cpu} : ∀ {n : Nat} {pt : U64} {c : Cpu},
    walk va access n pt c = .ok pa c' → pageOffset pa = pageOffset va
  | 0, _, _, h => by cases h
  | level + 1, pt, c, h => by
    obtain ⟨pte, d, hread⟩ := readPte_ok (pteAddr pt va level) c
    rw [walk_read hread] at h
    split at h
    · cases h
    · split at h
      · split at h
        · have hpa : pa = leafPa level pte va := by
            unfold walkLeaf at h
            dsimp only at h
            split at h <;> cases h <;> rfl
          rw [hpa]
          exact leafPa_offset level pte va
        · cases h
      · exact walk_offset h

/-- **A translation keeps the page offset.** -/
theorem rv64Translate_offset {va pa : U64} {access : AccessType} {c c' : Cpu} (h : rv64Translate va access c = .ok pa c') :
    pageOffset pa = pageOffset va := by
  by_cases hp : c.priv = privM
  · rw [rv64Translate_machine hp] at h
    cases h
    rfl
  by_cases hs : satpMode c.csr.satp = satpModeBare
  · rw [rv64Translate_bare hs] at h
    cases h
    rfl
  cases hl : tlbLookup c va access with
  | some q =>
    rw [rv64Translate_hit hp hs hl] at h
    cases h
    obtain ⟨-, hpa⟩ := Option.ite_none_right_eq_some.1 hl
    cases hpa
    exact tlbEntry_pa_offset _ va
  | none =>
    rw [rv64Translate_miss hp hs hl] at h
    exact walk_offset h

/-- **An access that does not cross a page** stays in the buffer. -/
theorem whole_inside {α : Type} {n : Nat} {va : U64} (hcross : crossesPage va n = false) (access : AccessType)
    {f : U64 → EStateM U64 RamTouched α} (hf : ∀ pa, pa.toNat % 4096 + n ≤ 4096 → Leads InsideMove (f pa)) :
    Leads InsideMove (translateG (touchGhosts n) va access >>= f) := by
  intro s
  refine final_bind (translateG_inside n va access s) fun pa t h _ => ?_
  obtain ⟨d, hd, -⟩ := ghosted_eq_ok.1 h
  have hoff := congrArg BitVec.toNat (rv64Translate_offset hd)
  rw [pageOffset_toNat, pageOffset_toNat] at hoff
  have hrest := mt crossesPage_iff.2 (ne_true_of_eq_false hcross)
  rw [pageRest_eq] at hrest
  exact hf pa (by omega) t

theorem loadG_inside {va : U64} {size n : Nat} (hn : n = if crossesPage va size then 1 else size) (access : AccessType) :
    Leads InsideMove (loadG (touchGhosts n) va size access) := by
  intro s
  cases hfast : loadFast s.cpu va size access with
  | some p =>
    rw [loadG_hit _ hfast]
    exact ⟨rfl, fun _ => id⟩
  | none =>
    rw [loadG_miss _ hfast]
    by_cases hcross : crossesPage va size = true
    · rw [if_pos hcross] at hn ⊢
      subst hn
      exact insideMove_rules.loadBytes va access size 0 0 s
    · rw [if_neg hcross] at hn ⊢
      subst hn
      exact whole_inside (eq_false_of_ne_true hcross) access (fun _ hpage => busLoadG_inside hpage) s

theorem storeAtG_inside {va : U64} {size n : Nat} (hn : n = if crossesPage va size then 1 else size) (val : U64) :
    Leads InsideMove (storeAtG (touchGhosts n) va size val) := by
  intro s
  cases hfast : storeFast s.cpu va size with
  | some p =>
    rw [storeAtG_hit _ hfast]
    exact ⟨rfl, fun _ => id⟩
  | none =>
    rw [storeAtG_miss _ hfast]
    by_cases hcross : crossesPage va size = true
    · rw [if_pos hcross] at hn ⊢
      subst hn
      exact insideMove_rules.storeBytes va val size 0 s
    · rw [if_neg hcross] at hn ⊢
      subst hn
      exact whole_inside (eq_false_of_ne_true hcross) .write (fun _ hpage => busStoreG_inside hpage val) s

theorem storeG_inside {va : U64} {size n : Nat} (hn : n = if crossesPage va size then 1 else size) (val : U64) :
    Leads InsideMove (storeG (touchGhosts n) va size val) := by
  intro s
  obtain ⟨d, hd⟩ := logStore_dbg va size val s.cpu
  have hlog : InsideMove s ⟨logStore va size val s.cpu, s.ghost⟩ := by
    rw [hd]
    exact ⟨rfl, fun _ => id⟩
  exact trans_of InsideMove hlog (storeAtG_inside hn val _)

/-- **An access of the guest stays in the buffer.** -/
theorem MemOp.touches_inside {c : Cpu} (h : WholePages c.ram_size) (op : MemOp) :
    ∀ t ∈ op.touches c, t.Inside c.ram_size := by
  have hmove {s : RamTouched} (hs : InsideMove ⟨c, []⟩ s) : ∀ t ∈ s.ghost, t.Inside c.ram_size := by
    have hin := hs.inside h (by simp [AllInside])
    unfold AllInside at hin
    rw [hs.ram] at hin
    exact hin
  cases op with
  | load va size access => exact hmove (loadG_inside rfl access _)
  | store va size val => exact hmove (storeG_inside rfl val _)

/-! ## All callers -/

/-- `vm_physpeek`: the value, and the bus after the read. -/
def vmPhyspeek (paddr : U64) (size : Int) (c : Cpu) : Except String (U64 × Bus) :=
  if size ≠ 1 ∧ size ≠ 2 ∧ size ≠ 4 ∧ size ≠ 8 then .error "vm_physpeek: size must be 1, 2, 4, or 8"
  else .ok (busLoad c.ram_size c.bus paddr size.toNat)

/-- Who accesses the bus: fetches, loads and stores of the guest, with their walks, and `vm_physpeek`. -/
inductive BusCaller where
  | guest (op : MemOp)
  | physpeek (paddr : U64) (size : Int)

def peekTouches (paddr : U64) (size : Int) (c : Cpu) : List RamTouch :=
  match vmPhyspeek paddr size c with
  | .ok _ => busTouch c.ram_size paddr size.toNat
  | .error _ => []

def BusCaller.touches : BusCaller → Cpu → List RamTouch
  | .guest op, c => op.touches c
  | .physpeek paddr size, c => peekTouches paddr size c

/-- A peek of an accepted size that starts in RAM and extends past its end. -/
def BusCaller.Overruns : BusCaller → Cpu → Prop
  | .guest _, _ => False
  | .physpeek paddr size, c => (size = 1 ∨ size = 2 ∨ size = 4 ∨ size = 8) ∧ PastEnd c.ram_size paddr size.toNat

omit [NetDevice] in
theorem peekTouches_of_size {size : Int} (h : size = 1 ∨ size = 2 ∨ size = 4 ∨ size = 8) (paddr : U64) (c : Cpu) :
    peekTouches paddr size c = busTouch c.ram_size paddr size.toNat := by
  have hok : ¬ (size ≠ 1 ∧ size ≠ 2 ∧ size ≠ 4 ∧ size ≠ 8) := by omega
  unfold peekTouches vmPhyspeek
  rw [if_neg hok]

omit [NetDevice] in
theorem peekTouches_refused {size : Int} (h : ¬ (size = 1 ∨ size = 2 ∨ size = 4 ∨ size = 8)) (paddr : U64) (c : Cpu) :
    peekTouches paddr size c = [] := by
  have hne : size ≠ 1 ∧ size ≠ 2 ∧ size ≠ 4 ∧ size ≠ 8 := by omega
  unfold peekTouches vmPhyspeek
  rw [if_pos hne]

/-- **The bus stays in the buffer** exactly when no peek extends past the end of RAM. -/
theorem busConfined_iff {c : Cpu} (h : WholePages c.ram_size) (caller : BusCaller) :
    (∀ t ∈ caller.touches c, t.Inside c.ram_size) ↔ ¬ caller.Overruns c := by
  cases caller with
  | guest op => exact iff_of_true (op.touches_inside h) id
  | physpeek paddr size =>
    show (∀ t ∈ peekTouches paddr size c, t.Inside c.ram_size) ↔ _
    by_cases hsize : size = 1 ∨ size = 2 ∨ size = 4 ∨ size = 8
    · rw [peekTouches_of_size hsize, busTouch_inside_iff h]
      exact not_congr (and_iff_right hsize).symm
    · rw [peekTouches_refused hsize]
      exact iff_of_true (by simp) fun hover => hsize hover.1

end Guest

section LastByte

local instance lastByteNet : NetDevice := NetDevice.silent

theorem superpage_pages : WholePages superpageCpu.ram_size := ⟨by decide, by decide⟩

theorem peekTouches_last : peekTouches 0xFFFFFFFF 8 superpageCpu = [⟨0x7FFFFFFF, 8⟩] :=
  (peekTouches_of_size (by decide) _ _).trans (if_pos (by decide))

/-- Eight bytes at the last byte of RAM: seven of them are behind the buffer. -/
theorem not_busConfined_peek : ∃ caller c, WholePages c.ram_size ∧ ∃ t ∈ BusCaller.touches caller c, ¬ t.Inside c.ram_size := by
  have hpast : ¬ RamTouch.Inside 0x80000000 ⟨0x7FFFFFFF, 8⟩ := by
    unfold RamTouch.Inside
    decide
  have hmem : ⟨0x7FFFFFFF, 8⟩ ∈ peekTouches 0xFFFFFFFF 8 superpageCpu := by
    rw [peekTouches_last]
    exact List.mem_singleton.2 rfl
  exact ⟨.physpeek 0xFFFFFFFF 8, superpageCpu, superpage_pages, _, hmem, hpast⟩

/-- A load of the last eight bytes of RAM. -/
theorem busConfined_load : ¬ ∃ t ∈ BusCaller.touches (.guest (.load 0xFFFFFFF8 8 .read)) superpageCpu,
    ¬ t.Inside superpageCpu.ram_size := by
  rintro ⟨t, ht, hout⟩
  exact hout ((busConfined_iff superpage_pages _).2 id t ht)

end LastByte

end PgLinux
