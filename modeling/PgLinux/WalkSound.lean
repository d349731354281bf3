import PgLinux.AccessedDirty
/-!
# WalkSound — the walk against Sv39

The page tables as the architecture describes them: fields of addresses and entries as numbers, the entries on the path
of an address, what a leaf has to be.  The walk of the source keeps to it wherever the tables it meets are in RAM.
-/
namespace PgLinux

open Prog

/-! ## Fields -/

/-- `va.vpn[level]`. -/
def vpnField (va : U64) (level : Nat) : Nat := va.toNat / 2 ^ (12 + 9 * level) % 512

/-- `pte.ppn`, and the page number in `satp`. -/
def ppnField (pte : U64) : Nat := pte.toNat / 2 ^ 10 % 2 ^ 44
def satpPpn (satp : U64) : Nat := satp.toNat % 2 ^ 44

/-- The entry for `va` in the table on page `table`. -/
def entryAddr (table : Nat) (va : U64) (level : Nat) : U64 := BitVec.ofNat 64 (table * 4096 + vpnField va level * 8)

theorem vpnAt_toNat (va : U64) (level : Nat) : (vpnAt va level).toNat = vpnField va level := by
  unfold vpnAt vpnField
  rw [BitVec.toNat_and, BitVec.toNat_ushiftRight, Nat.shiftRight_eq_div_pow]
  exact Nat.and_two_pow_sub_one_eq_mod _ 9

theorem table_toNat (v : U64) : ((v &&& 0xFFFFFFFFFFF) <<< 12).toNat = v.toNat % 2 ^ 44 * 4096 := by
  have hmask : (v &&& 0xFFFFFFFFFFF).toNat = v.toNat % 2 ^ 44 := by
    rw [BitVec.toNat_and]
    exact Nat.and_two_pow_sub_one_eq_mod _ 44
  rw [BitVec.toNat_shiftLeft, hmask, Nat.shiftLeft_eq]
  omega

theorem rootTable_toNat (satp : U64) : (rootTable satp).toNat = satpPpn satp * 4096 := table_toNat satp

theorem nextTable_toNat (pte : U64) : (nextTable pte).toNat = ppnField pte * 4096 := by
  unfold nextTable ppnField
  rw [table_toNat, BitVec.toNat_ushiftRight, Nat.shiftRight_eq_div_pow]

theorem pteAddr_eq {pt : U64} {table : Nat} (h : pt.toNat = table * 4096) (va : U64) (level : Nat) :
    pteAddr pt va level = entryAddr table va level := by
  have h8 : (8 : U64).toNat = 8 := rfl
  refine BitVec.eq_of_toNat_eq ?_
  unfold pteAddr entryAddr
  rw [BitVec.toNat_add, BitVec.toNat_mul, BitVec.toNat_ofNat, vpnAt_toNat, h, h8]
  omega

theorem superpageAligned_iff {level : Nat} (hl : level < 3) (pte : U64) :
    superpageAligned level pte = true ↔ ppnField pte % 512 ^ level = 0 := by
  have hfield (k : Nat) : (pte >>> k &&& 0x1FF == 0) = true ↔ pte.toNat / 2 ^ k % 512 = 0 := by
    rw [beq_iff_eq, ← BitVec.toNat_inj, BitVec.toNat_and, BitVec.toNat_ushiftRight, Nat.shiftRight_eq_div_pow]
    exact Iff.of_eq (congrArg (· = 0) (Nat.and_two_pow_sub_one_eq_mod _ 9))
  unfold superpageAligned ppnField
  obtain rfl | rfl | rfl : level = 0 ∨ level = 1 ∨ level = 2 := by omega
  · simp [Nat.mod_one]
  · simp only [Nat.reduceEqDiff, if_true, if_false, hfield]
    omega
  · simp only [if_true, Bool.and_eq_true, hfield]
    omega

/-- An aligned leaf has no bits of the page number inside its page. -/
theorem aligned_getLsbD {level : Nat} (hl : level < 3) {pte : U64} (h : ppnField pte % 512 ^ level = 0) {i : Nat}
    (hlo : 10 ≤ i) (hi : i < 10 + 9 * level) : pte.getLsbD i = false := by
  have hsplit : pte.toNat = 2 ^ (10 + 9 * level) * (pte.toNat / 2 ^ (10 + 9 * level)) + pte.toNat % 2 ^ 10 := by
    unfold ppnField at h
    obtain rfl | rfl | rfl : level = 0 ∨ level = 1 ∨ level = 2 := by omega
    · omega
    · omega
    · omega
  have hflags : pte.toNat % 2 ^ 10 < 2 ^ (10 + 9 * level) :=
    Nat.lt_of_lt_of_le (Nat.mod_lt _ (by decide)) (Nat.pow_le_pow_right (by decide) (by omega))
  have h10 : ¬ i < 10 := by omega
  show pte.toNat.testBit i = false
  rw [hsplit, Nat.testBit_two_pow_mul_add _ hflags, if_pos hi, Nat.testBit_mod_two_pow]
  simp [h10]

theorem ppnField_mul {level : Nat} (hl : level < 3) {pte : U64} (hpte : pte.toNat < 2 ^ 54)
    (h : ppnField pte % 512 ^ level = 0) :
    ppnField pte * 4096 = 2 ^ (12 + 9 * level) * (pte.toNat / 2 ^ (10 + 9 * level)) := by
  unfold ppnField at h ⊢
  obtain rfl | rfl | rfl : level = 0 ∨ level = 1 ∨ level = 2 := by omega
  · omega
  · omega
  · omega

/-- **The address of a leaf**: its page number and the offset in a page of its level. -/
theorem leafPa_toNat {level : Nat} (hl : level < 3) {pte : U64} (hpte : pte.toNat < 2 ^ 54)
    (haligned : ppnField pte % 512 ^ level = 0) (va : U64) :
    (leafPa level pte va).toNat = ppnField pte * 4096 + va.toNat % 2 ^ (12 + 9 * level) := by
  have hoff : va.toNat % 2 ^ (12 + 9 * level) < 2 ^ (12 + 9 * level) := Nat.mod_lt _ (Nat.two_pow_pos _)
  refine Nat.eq_of_testBit_eq fun i => ?_
  rw [ppnField_mul hl hpte haligned, Nat.testBit_two_pow_mul_add _ hoff, Nat.testBit_mod_two_pow, Nat.testBit_div_two_pow]
  show (leafPa level pte va).getLsbD i = _
  rw [leafPa_eq, BitVec.getLsbD_or, pageOffset_getLsbD]
  by_cases hk : i < 12 + 9 * level
  · have hva : va.toNat.testBit i = va.getLsbD i := rfl
    by_cases h12 : i < 12
    · simp [leafFrame_low, h12, hk, hva]
    · have hpte := aligned_getLsbD hl haligned (i := i - 2) (by omega) (by omega)
      rw [leafFrame_high hl pte va (by omega) (by omega), hpte]
      simp [h12, hk, hva]
  · have hi : i - (12 + 9 * level) + (10 + 9 * level) = i - 2 := by omega
    have h12 : ¬ i < 12 := by omega
    rw [if_neg hk, hi]
    show _ = pte.getLsbD (i - 2)
    by_cases h64 : i < 64
    · have h21 : level = 1 → 21 ≤ i := by omega
      rw [leafFrame_high hl pte va (by omega) h64]
      by_cases h1 : level = 1
      · simp [h12, hk, h21 h1]
      · simp [h12, hk, h1]
    · have hhigh : pte.getLsbD (i - 2) = false :=
        Nat.testBit_lt_two_pow (Nat.lt_of_lt_of_le hpte (Nat.pow_le_pow_right (by decide) (by omega)))
      rw [hhigh, BitVec.getLsbD_of_ge _ i (by omega)]
      simp [h12]

/-! ## Paths -/

/-- A valid entry without R, W and X. -/
structure IsPointer (pte : U64) : Prop where
  valid : pteV pte = true
  readable : pteR pte = false
  writable : pteW pte = false
  executable : pteX pte = false

/-- The entry at `a` is the one for `va` at `level`, of the tables that `satp` and the entries above it name. -/
inductive OnPath (c : Cpu) (va : U64) : Nat → U64 → Prop where
  | root : OnPath c va 2 (entryAddr (satpPpn c.csr.satp) va 2)
  | next {level : Nat} {a : U64} (h : OnPath c va (level + 1) a) (hp : IsPointer (c.pteAt a)) :
      OnPath c va level (entryAddr (ppnField (c.pteAt a)) va level)

/-- The entries on the path are in RAM, with bits 63:54 clear. -/
structure PlainTables (c : Cpu) (va : U64) : Prop where
  inRam : ∀ level a, OnPath c va level a → pteInRam c.ram_size a = true
  clear : ∀ level a, OnPath c va level a → (c.pteAt a).toNat < 2 ^ 54

/-- What an entry has to allow. -/
structure Permits (c : Cpu) (access : AccessType) (pte : U64) : Prop where
  user : c.priv = privU → pteU pte = true
  supervisor : c.priv = privS → pteU pte = true → c.sum = true
  read : access = .read → pteR pte = true ∨ c.mxr = true ∧ pteX pte = true
  write : access = .write → pteW pte = true
  exec : access = .exec → pteX pte = true

/-- A leaf that maps `va` for the access. -/
structure LeafFor (c : Cpu) (va : U64) (access : AccessType) (level : Nat) (a : U64) : Prop where
  path : OnPath c va level a
  valid : pteV (c.pteAt a) = true
  leaf : pteR (c.pteAt a) = true ∨ pteX (c.pteAt a) = true
  not_writeOnly : pteW (c.pteAt a) = true → pteR (c.pteAt a) = true
  aligned : ppnField (c.pteAt a) % 512 ^ level = 0
  permits : Permits c access (c.pteAt a)

/-- A translation through the leaf at `a`. -/
structure TranslatedBy (c : Cpu) (va : U64) (access : AccessType) (level : Nat) (a pa : U64) (c' : Cpu) : Prop where
  leaf : LeafFor c va access level a
  pa : pa.toNat = ppnField (c.pteAt a) * 4096 + va.toNat % 2 ^ (12 + 9 * level)
  marked : c'.pteAt a = withAD (c.pteAt a) access
  others : ∀ i : U64, 8 ≤ (i - (a - ramBase)).toNat → c'.bus.mem.ram i = c.bus.mem.ram i
  frame : ∃ tlb ram, c' = { c with tlb := tlb, bus := { c.bus with mem := { c.bus.mem with ram := ram } } }

theorem entry_valid {pte : U64} (h : ¬ (!pteV pte || pteReserved pte) = true) : pteV pte = true ∧ pteReserved pte = false := by
  rw [Bool.or_eq_true, not_or] at h
  simpa using h

theorem isPointer_of {pte : U64} (hv : pteV pte = true) (hleaf : pteLeaf pte = false) : IsPointer pte := by
  have hzero : pte &&& rwxMask = 0#64 := by
    unfold pteLeaf at hleaf
    simpa using hleaf
  have hbit {i : Nat} (hi : rwxMask.getLsbD i = true) : pte.getLsbD i = false := by
    have h := congrArg (fun v : U64 => v.getLsbD i) hzero
    simpa [hi] using h
  exact ⟨hv, hbit rfl, hbit rfl, hbit rfl⟩

section Paths

variable {c : Cpu} {va pt a p : U64} {n level : Nat}

theorem OnPath.level_lt (h : OnPath c va level a) : level < 3 := by
  induction h with
  | root => decide
  | next _ _ ih => omega

/-- The entry that a table of a walk holds is on the path. -/
def Enters (c : Cpu) (va : U64) (n : Nat) (pt : U64) : Prop := ∀ l, n = l + 1 → OnPath c va l (pteAddr pt va l)

theorem enters_root (c : Cpu) (va : U64) : Enters c va 3 (rootTable c.csr.satp) := by
  rintro l hl
  obtain rfl : l = 2 := by omega
  rw [pteAddr_eq (rootTable_toNat _)]
  exact .root

theorem Enters.next {l : Nat} (h : Enters c va (l + 1) pt) (hp : IsPointer (c.pteAt (pteAddr pt va l))) :
    Enters c va l (nextTable (c.pteAt (pteAddr pt va l))) := by
  rintro k rfl
  rw [pteAddr_eq (nextTable_toNat _)]
  exact (h _ rfl).next hp

/-- **Where tables are in RAM**, the walk stays there. -/
theorem findLeaf_inRam (hin : ∀ level a, OnPath c va level a → pteInRam c.ram_size a = true) :
    ∀ {n : Nat} {pt : U64}, Enters c va n pt → findLeaf c.ram_size c.bus.mem.ram va n pt ≠ .outside
  | 0, _, _ => by simp [findLeaf]
  | l + 1, pt, h => by
    unfold findLeaf
    dsimp only
    rw [if_pos (hin l _ (h l rfl))]
    split
    · simp
    next hbad =>
      split
      · simp
      next hleaf =>
        have hp : IsPointer (c.pteAt (pteAddr pt va l)) := isPointer_of (entry_valid hbad).1 (eq_false_of_ne_true hleaf)
        exact findLeaf_inRam hin (h.next hp)

/-- **The leaf of a walk** is on the path, valid and not write-only. -/
theorem findLeaf_onPath : ∀ {n : Nat} {pt : U64}, Enters c va n pt →
    findLeaf c.ram_size c.bus.mem.ram va n pt = .leaf level a p →
    OnPath c va level a ∧ pteV (c.pteAt a) = true ∧ pteReserved (c.pteAt a) = false
  | 0, _, _, h => by cases h
  | l + 1, pt, henters, h => by
    unfold findLeaf at h
    dsimp only at h
    split at h
    · split at h
      · cases h
      next hbad =>
        obtain ⟨hv, hres⟩ := entry_valid hbad
        split at h
        · cases h
          exact ⟨henters _ rfl, hv, hres⟩
        next hleaf =>
          have hp : IsPointer (c.pteAt (pteAddr pt va l)) := isPointer_of hv (eq_false_of_ne_true hleaf)
          exact findLeaf_onPath (henters.next hp) h
    · cases h

end Paths

/-! ## The walk -/

theorem leafAllows_iff {c : Cpu} {level : Nat} (hl : level < 3) (access : AccessType) (pte : U64) :
    leafAllows c access level pte = true ↔ Permits c access pte ∧ ppnField pte % 512 ^ level = 0 := by
  have hpriv : privOk c (pteU pte) = true ↔
      (c.priv = privU → pteU pte = true) ∧ (c.priv = privS → pteU pte = true → c.sum = true) := by
    unfold privOk
    simp
    grind
  have haccess : accessOk c pte access = true ↔ (access = .read → pteR pte = true ∨ c.mxr = true ∧ pteX pte = true) ∧
      (access = .write → pteW pte = true) ∧ (access = .exec → pteX pte = true) := by
    unfold accessOk readOk
    cases access <;> simp
  unfold leafAllows
  rw [Bool.and_eq_true, Bool.and_eq_true, hpriv, haccess, superpageAligned_iff hl]
  constructor
  · rintro ⟨⟨⟨hu, hs⟩, hr, hw, hx⟩, haligned⟩
    exact ⟨⟨hu, hs, hr, hw, hx⟩, haligned⟩
  · rintro ⟨h, haligned⟩
    exact ⟨⟨⟨h.user, h.supervisor⟩, h.read, h.write, h.exec⟩, haligned⟩

theorem useLeaf_others (c : Cpu) (va : U64) (access : AccessType) (level : Nat) (a pte : U64) {i : U64}
    (hi : 8 ≤ (i - (a - ramBase)).toNat) : (c.useLeaf va access level a pte).bus.mem.ram i = c.bus.mem.ram i := by
  unfold Cpu.useLeaf
  dsimp only
  split
  · exact Mem.write_of_le _ _ _ _ _ hi
  · rfl

theorem useLeaf_frame (c : Cpu) (va : U64) (access : AccessType) (level : Nat) (a pte : U64) :
    ∃ tlb ram, c.useLeaf va access level a pte =
      { c with tlb := tlb, bus := { c.bus with mem := { c.bus.mem with ram := ram } } } := by
  unfold Cpu.useLeaf
  dsimp only
  split
  · exact ⟨_, _, rfl⟩
  · exact ⟨_, c.bus.mem.ram, rfl⟩

section Walk

variable [NetDevice] {c : Cpu} {va : U64}

/-- **A translation that misses the TLB** is one by a leaf that Sv39 allows, or faults and changes nothing. -/
theorem walk_sound (hpriv : c.priv = privU ∨ c.priv = privS) (hsv39 : satpMode c.csr.satp = satpModeSv39)
    {access : AccessType} (hmiss : tlbLookup c va access = none) (htables : PlainTables c va) :
    (∀ pa c', rv64Translate va access c = .ok pa c' → ∃ level a, TranslatedBy c va access level a pa c') ∧
      ∀ exc c', rv64Translate va access c = .error exc c' → exc = faultCode access ∧ c' = c := by
  have hm : c.priv ≠ privM := by
    rcases hpriv with h | h <;> rw [h] <;> decide
  have hbare : satpMode c.csr.satp ≠ satpModeBare := by
    rw [hsv39]
    decide
  have hroot := enters_root c va
  rw [rv64Translate_miss hm hbare hmiss]
  rcases walk_cases access (findLeaf_inRam htables.inRam hroot) with hw | ⟨level, a, p, pte, hpath, hleaf, hok, hw⟩
  · rw [hw]
    constructor
    · intro pa c' h
      cases h
    · intro exc c' h
      cases h
      exact ⟨rfl, rfl⟩
  · obtain ⟨honPath, hv, hres⟩ := findLeaf_onPath hroot hpath
    have hl := honPath.level_lt
    have hread : c.pteAt a = pte := hleaf.read.symm
    rw [hleaf.mark, leafAllows_marked, leafAllows_iff hl] at hok
    obtain ⟨hpermits, haligned⟩ := hok
    have hclear := htables.clear level a honPath
    rw [hread] at hv hres hclear
    rw [hw]
    constructor
    · intro pa c' h
      cases h
      refine ⟨level, a, ⟨honPath, ?_, ?_, ?_, ?_, ?_⟩, ?_, ?_, fun i => useLeaf_others _ _ _ _ _ _,
        useLeaf_frame _ _ _ _ _ _⟩ <;> rw [hread]
      · exact hv
      · exact hleaf.readable
      · intro hwrite
        unfold pteReserved at hres
        simpa [hwrite] using hres
      · exact haligned
      · exact hpermits
      · rw [hleaf.mark, leafPa_marked]
        exact leafPa_toNat hl hclear haligned va
      · exact useLeaf_pteAt hleaf access
    · intro exc c' h
      cases h

end Walk

section Superpage

local instance walkNet : NetDevice := NetDevice.silent

/-- The path of the address ends at the root table. -/
theorem superpage_path {level : Nat} {a : U64} (h : OnPath superpageCpu 0x40000123 level a) : a = 0x80001008 := by
  induction h with
  | root => decide
  | next _ hp ih =>
    have hleaf : pteR (superpageCpu.pteAt 0x80001008) = true := by decide +kernel
    have hpointer := hp.readable
    rw [ih, hleaf] at hpointer
    cases hpointer

theorem superpage_tables : PlainTables superpageCpu 0x40000123 where
  inRam level a h := by
    rw [superpage_path h]
    decide +kernel
  clear level a h := by
    rw [superpage_path h]
    decide +kernel

/-- A store to the 1 GiB page. -/
theorem walk_sound_superpage : ∃ level a, TranslatedBy superpageCpu 0x40000123 .write level a 0x80000123
    (final (rv64Translate 0x40000123 .write superpageCpu)) :=
  (walk_sound (.inr rfl) rfl (by decide +kernel) superpage_tables).1 _ _ (eq_ok_of_answer (by decide +kernel))

end Superpage

end PgLinux
