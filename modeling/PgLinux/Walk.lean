import PgLinux.Frames
/-!
# Walk — what a page table walk finds

`Cpu.path` is the walk of an address as a function of guest RAM, with the A and D bits of the leaf set aside: two states
with the same paths translate alike, whatever the walker has marked in between.
-/
namespace PgLinux

/-! ## A and D bits -/

/-- A PTE with A and D set. -/
def marked (pte : U64) : U64 := pte ||| pteA ||| pteD

theorem marked_getLsbD {i : Nat} (ha : i ≠ 6) (hd : i ≠ 7) (pte : U64) : (marked pte).getLsbD i = pte.getLsbD i := by
  have hbits : ∀ j : Fin 64, j.val ≠ 6 → j.val ≠ 7 → pteA.getLsbD j.val = false ∧ pteD.getLsbD j.val = false := by decide
  unfold marked
  rcases Nat.lt_or_ge i 64 with hi | hi
  · obtain ⟨hA, hD⟩ := hbits ⟨i, hi⟩ ha hd
    simp only [BitVec.getLsbD_or, hA, hD, Bool.or_false]
  · rw [BitVec.getLsbD_of_ge _ i hi, BitVec.getLsbD_of_ge _ i hi]

theorem marked_and {m : U64} (ha : pteA &&& m = 0#64) (hd : pteD &&& m = 0#64) (pte : U64) :
    marked pte &&& m = pte &&& m := by
  unfold marked
  rw [BitVec.and_or_distrib_right, BitVec.and_or_distrib_right, ha, hd, BitVec.or_zero, BitVec.or_zero]

@[simp] theorem marked_shift (pte : U64) : marked pte >>> 10 = pte >>> 10 := by
  unfold marked
  rw [BitVec.ushiftRight_or_distrib, BitVec.ushiftRight_or_distrib]
  exact (BitVec.or_zero.trans BitVec.or_zero)

@[simp] theorem marked_withAD (pte : U64) (access : AccessType) : marked (withAD pte access) = marked pte := by
  unfold marked withAD
  split
  · ext i
    simp
    grind
  · ext i
    simp

@[simp] theorem pteV_marked (pte : U64) : pteV (marked pte) = pteV pte := marked_getLsbD (by decide) (by decide) pte
@[simp] theorem pteR_marked (pte : U64) : pteR (marked pte) = pteR pte := marked_getLsbD (by decide) (by decide) pte
@[simp] theorem pteW_marked (pte : U64) : pteW (marked pte) = pteW pte := marked_getLsbD (by decide) (by decide) pte
@[simp] theorem pteX_marked (pte : U64) : pteX (marked pte) = pteX pte := marked_getLsbD (by decide) (by decide) pte
@[simp] theorem pteU_marked (pte : U64) : pteU (marked pte) = pteU pte := marked_getLsbD (by decide) (by decide) pte

@[simp] theorem pteReserved_marked (pte : U64) : pteReserved (marked pte) = pteReserved pte := by
  unfold pteReserved
  rw [pteW_marked, pteR_marked]

@[simp] theorem pteLeaf_marked (pte : U64) : pteLeaf (marked pte) = pteLeaf pte := by
  unfold pteLeaf
  rw [marked_and (by decide) (by decide)]

@[simp] theorem permMask_marked (pte : U64) : marked pte &&& permMask = pte &&& permMask :=
  marked_and (by decide) (by decide) pte

@[simp] theorem nextTable_marked (pte : U64) : nextTable (marked pte) = nextTable pte := by
  unfold nextTable
  rw [marked_shift]

@[simp] theorem leafPa_marked (level : Nat) (pte va : U64) : leafPa level (marked pte) va = leafPa level pte va := by
  unfold leafPa
  rw [marked_shift]

@[simp] theorem superpageAligned_marked (level : Nat) (pte : U64) :
    superpageAligned level (marked pte) = superpageAligned level pte := by
  unfold superpageAligned
  rw [show (19 : Nat) = 10 + 9 from rfl, BitVec.shiftRight_add, BitVec.shiftRight_add, marked_shift]

@[simp] theorem leafAllows_marked (c : Cpu) (access : AccessType) (level : Nat) (pte : U64) :
    leafAllows c access level (marked pte) = leafAllows c access level pte := by
  unfold leafAllows accessOk
  cases access <;> simp

theorem perm_getLsbD {i : Nat} (hi : i = 1 ∨ i = 2 ∨ i = 3 ∨ i = 4) (p : U64) :
    ((p &&& permMask).setWidth 8).getLsbD i = p.getLsbD i := by
  rw [BitVec.getLsbD_setWidth, BitVec.getLsbD_and]
  obtain rfl | rfl | rfl | rfl := hi <;> simp [permMask]

/-! ## Leaf addresses -/

theorem vpnAt_page {va va' : U64} (h : vpnOf va = vpnOf va') (level : Nat) : vpnAt va level = vpnAt va' level := by
  unfold vpnAt
  rw [BitVec.shiftRight_add, BitVec.shiftRight_add]
  exact congrArg (fun v : U64 => v >>> (9 * level) &&& 0x1FF) h

theorem mask_getLsbD {n : Nat} (hn : n ≤ 64) (i : Nat) : (BitVec.ofNat 64 (2 ^ n - 1)).getLsbD i = decide (i < n) := by
  rw [BitVec.getLsbD_ofNat, Nat.testBit_two_pow_sub_one]
  by_cases h : i < n
  · simp [h]
    omega
  · simp [h]

theorem lowMask_getLsbD (i : Nat) : (0xFFFFFFFF : U64).getLsbD i = decide (i < 32) := mask_getLsbD (n := 32) (by decide) i

theorem offsetMask_getLsbD (i : Nat) : (0xFFF : U64).getLsbD i = decide (i < 12) := mask_getLsbD (n := 12) (by decide) i

/-- A physical address without its page offset. -/
def leafFrame (level : Nat) (pte va : U64) : U64 :=
  let ppn := pte >>> 10
  if level = 2 then ppn <<< 12 ||| vpnAt va 1 <<< 21 ||| vpnAt va 0 <<< 12
  else if level = 1 then (ppn >>> 9) <<< 21 ||| vpnAt va 0 <<< 12
  else ppn <<< 12

theorem leafPa_eq (level : Nat) (pte va : U64) : leafPa level pte va = leafFrame level pte va ||| pageOffset va := by
  unfold leafPa leafFrame
  dsimp only
  split
  · rfl
  · split <;> rfl

theorem vpnAt_getLsbD (va : U64) (level i : Nat) :
    (vpnAt va level).getLsbD i = (va.getLsbD (12 + 9 * level + i) && decide (i < 9)) := by
  have hmask : (0x1FF : U64).getLsbD i = decide (i < 9) := mask_getLsbD (n := 9) (by decide) i
  unfold vpnAt
  rw [BitVec.getLsbD_and, BitVec.getLsbD_ushiftRight, hmask]

theorem pageOffset_getLsbD (va : U64) (i : Nat) : (pageOffset va).getLsbD i = (va.getLsbD i && decide (i < 12)) := by
  unfold pageOffset
  rw [BitVec.getLsbD_and, offsetMask_getLsbD]

theorem leafFrame_low {level : Nat} (pte va : U64) {i : Nat} (hi : i < 12) : (leafFrame level pte va).getLsbD i = false := by
  have h21 : i < 21 := by omega
  unfold leafFrame
  dsimp only
  split
  · simp [BitVec.getLsbD_shiftLeft, hi, h21]
  · split <;> simp [BitVec.getLsbD_shiftLeft, hi, h21]

/-- Above the page offset, a bit of the frame comes from the address up to the size of the page, and from the PTE. -/
theorem leafFrame_high {level : Nat} (hl : level < 3) (pte va : U64) {i : Nat} (hlo : 12 ≤ i) (hi : i < 64) :
    (leafFrame level pte va).getLsbD i =
      (decide (i < 12 + 9 * level) && va.getLsbD i || (decide (level ≠ 1) || decide (21 ≤ i)) && pte.getLsbD (i - 2)) := by
  have hp : 10 + (i - 12) = i - 2 := by omega
  have hv0 : 12 + 9 * 0 + (i - 12) = i := by omega
  have hn : ¬ i < 12 := by omega
  obtain rfl | rfl | rfl : level = 0 ∨ level = 1 ∨ level = 2 := by omega
  · show (pte >>> 10 <<< 12).getLsbD i = _
    rw [BitVec.getLsbD_shiftLeft, BitVec.getLsbD_ushiftRight, hp]
    simp [hi, hn]
  · show ((pte >>> 10 >>> 9) <<< 21 ||| vpnAt va 0 <<< 12).getLsbD i = _
    simp only [BitVec.getLsbD_or, BitVec.getLsbD_shiftLeft, BitVec.getLsbD_ushiftRight, vpnAt_getLsbD, hv0]
    by_cases h21 : i < 21
    · have h9 : i - 12 < 9 := by omega
      have h21' : ¬ 21 ≤ i := by omega
      simp [h21, h21', hi, hn, h9]
    · have hp1 : 10 + (9 + (i - 21)) = i - 2 := by omega
      have : ¬ i - 12 < 9 := by omega
      have : 21 ≤ i := by omega
      simp [*]
  · show (pte >>> 10 <<< 12 ||| vpnAt va 1 <<< 21 ||| vpnAt va 0 <<< 12).getLsbD i = _
    simp only [BitVec.getLsbD_or, BitVec.getLsbD_shiftLeft, BitVec.getLsbD_ushiftRight, vpnAt_getLsbD, hv0, hp]
    by_cases h21 : i < 21
    · have h9 : i - 12 < 9 := by omega
      have h30 : i < 30 := by omega
      simp [h21, hi, hn, h9, h30, Bool.or_comm]
    · have hv1 : 12 + 9 * 1 + (i - 21) = i := by omega
      have h9 : ¬ i - 12 < 9 := by omega
      have h30 : i - 21 < 9 ↔ i < 30 := by omega
      simp only [hv1, h21, hi, hn, h9, h30]
      simp
      rw [Bool.or_comm, Bool.and_comm]

/-- **The address of a hit is the address of the walk.** -/
theorem leafFrame_hit {level : Nat} (hl : level < 3) (pte va : U64) :
    (leafPa level pte va >>> 12) <<< 12 ||| (va &&& levelMask (BitVec.ofNat 8 level)) = leafPa level pte va := by
  refine BitVec.eq_of_getLsbD_eq fun i hi => ?_
  have hmask : (levelMask (BitVec.ofNat 8 level)).getLsbD i = decide (i < 12 + 9 * level) := by
    obtain rfl | rfl | rfl : level = 0 ∨ level = 1 ∨ level = 2 := by omega
    · exact offsetMask_getLsbD i
    · exact mask_getLsbD (n := 21) (by decide) i
    · exact mask_getLsbD (n := 30) (by decide) i
  rw [leafPa_eq]
  simp only [BitVec.getLsbD_or, BitVec.getLsbD_shiftLeft, BitVec.getLsbD_ushiftRight, BitVec.getLsbD_and, hmask,
    pageOffset_getLsbD]
  by_cases h12 : i < 12
  · have hm : i < 12 + 9 * level := by omega
    rw [leafFrame_low pte va h12]
    simp [h12, hi, hm]
  · have hi12 : 12 + (i - 12) = i := by omega
    rw [hi12, leafFrame_high hl pte va (by omega) hi]
    cases va.getLsbD i with
    | false => simp [h12, hi]
    | true =>
      simp [h12, hi]
      exact fun h => .inl h

theorem leafPa_offset (level : Nat) (pte va : U64) : leafPa level pte va &&& 0xFFF = pageOffset va := by
  refine BitVec.eq_of_getLsbD_eq fun i hi => ?_
  rw [leafPa_eq, BitVec.getLsbD_and, BitVec.getLsbD_or, offsetMask_getLsbD, pageOffset_getLsbD]
  by_cases h12 : i < 12
  · rw [leafFrame_low pte va h12]
    simp [h12]
  · simp [h12]

theorem page_add_offset (v : U64) : (v >>> 12) <<< 12 + (v &&& 0xFFF) = v := by
  have hmask : v &&& 0xFFF = BitVec.ofNat 64 (v.toNat % 4096) := by
    refine BitVec.eq_of_toNat_eq ?_
    have hand : v.toNat &&& (2 ^ 12 - 1) = v.toNat % 2 ^ 12 := Nat.and_two_pow_sub_one_eq_mod _ _
    rw [BitVec.toNat_and, BitVec.toNat_ofNat]
    refine hand.trans ?_
    omega
  refine BitVec.eq_of_toNat_eq ?_
  rw [hmask, BitVec.toNat_add, BitVec.toNat_shiftLeft, BitVec.toNat_ushiftRight, BitVec.toNat_ofNat, Nat.shiftLeft_eq,
    Nat.shiftRight_eq_div_pow]
  omega

/-- **The address a host pointer stands for is the address of the walk.** -/
theorem leafPa_host (level : Nat) (pte va : U64) :
    ramBase + ((leafPa level pte va >>> 12) <<< 12 - ramBase + pageOffset va) = leafPa level pte va := by
  rw [← leafPa_offset level pte va, ← BitVec.add_assoc, BitVec.add_comm ramBase, BitVec.sub_add_cancel]
  exact page_add_offset _

theorem leafEntry_host {ramSize va : U64} {level : Nat} {pte newPte b : U64}
    (h : (leafEntry ramSize va level pte newPte).host_base = some b) :
    ramBase + (b + pageOffset va) = leafPa level pte va := by
  unfold leafEntry hostBase at h
  dsimp only at h
  split at h
  · cases h
    exact leafPa_host level pte va
  · cases h

theorem leafPa_page {va va' : U64} (h : vpnOf va = vpnOf va') (level : Nat) (pte : U64) :
    leafPa level pte va >>> 12 = leafPa level pte va' >>> 12 := by
  have hv : ∀ l, vpnAt va l = vpnAt va' l := vpnAt_page h
  have hoff : ∀ v : U64, pageOffset v >>> 12 = 0#64 := by
    intro v
    refine BitVec.eq_of_getLsbD_eq fun i hi => ?_
    have : ¬ 12 + i < 12 := by omega
    rw [BitVec.getLsbD_ushiftRight, pageOffset_getLsbD, BitVec.getLsbD_zero]
    simp [this]
  have hframe : leafFrame level pte va = leafFrame level pte va' := by
    unfold leafFrame
    rw [hv, hv]
  rw [leafPa_eq, leafPa_eq, BitVec.ushiftRight_or_distrib, BitVec.ushiftRight_or_distrib, hoff, hoff, hframe]

/-! ## Tables -/

/-- A page-aligned address a PTE or `satp` can name. -/
def IsTable (pt : U64) : Prop := pt.toNat % 4096 = 0 ∧ pt.toNat < 2 ^ 56

theorem isTable_shift (v : U64) : IsTable ((v &&& 0xFFFFFFFFFFF) <<< 12) := by
  have h : (v &&& 0xFFFFFFFFFFF).toNat < 2 ^ 44 := by
    rw [BitVec.toNat_and]
    exact Nat.lt_of_le_of_lt Nat.and_le_right (by decide)
  unfold IsTable
  rw [BitVec.toNat_shiftLeft, Nat.shiftLeft_eq]
  omega

theorem rootTable_isTable (satp : U64) : IsTable (rootTable satp) := isTable_shift satp

theorem nextTable_isTable (pte : U64) : IsTable (nextTable pte) := isTable_shift _

/-- A PTE address the source's RAM check lets through: an aligned word inside RAM. -/
structure IsPteAddr (ramSize a : U64) : Prop where
  aligned : a.toNat % 8 = 0
  base : ramBase.toNat ≤ a.toNat
  fits : a.toNat + 8 ≤ (ramBase + ramSize).toNat
  small : a.toNat < 2 ^ 57

theorem pteAddr_toNat {pt : U64} (h : IsTable pt) (va : U64) (level : Nat) :
    (pteAddr pt va level).toNat = pt.toNat + 8 * (vpnAt va level).toNat ∧ (vpnAt va level).toNat < 512 := by
  have hv : (vpnAt va level).toNat < 512 := by
    unfold vpnAt
    rw [BitVec.toNat_and]
    exact Nat.lt_of_le_of_lt Nat.and_le_right (by decide)
  obtain ⟨-, hlt⟩ := h
  have h8 : (8 : U64).toNat = 8 := rfl
  refine ⟨?_, hv⟩
  unfold pteAddr
  rw [BitVec.toNat_add, BitVec.toNat_mul, h8]
  omega

theorem pteAddr_ok {ramSize pt va : U64} {level : Nat} (h : IsTable pt)
    (hin : pteInRam ramSize (pteAddr pt va level) = true) : IsPteAddr ramSize (pteAddr pt va level) := by
  obtain ⟨ha, hv⟩ := pteAddr_toNat h va level
  obtain ⟨hmod, hlt⟩ := h
  have h8 : (8 : U64).toNat = 8 := rfl
  unfold pteInRam at hin
  rw [Bool.and_eq_true, decide_eq_true_iff, decide_eq_true_iff, BitVec.le_def, BitVec.le_def, BitVec.toNat_add,
    h8] at hin
  refine ⟨?_, ?_, ?_, ?_⟩ <;> omega

theorem IsPteAddr.offset {ramSize a : U64} (h : IsPteAddr ramSize a) : (a - ramBase).toNat = a.toNat - ramBase.toNat := by
  have := h.base
  rw [BitVec.toNat_sub]
  omega

theorem IsPteAddr.inRam {ramSize a : U64} (h : IsPteAddr ramSize a) : inRam ramSize a = true := by
  obtain ⟨-, hbase, hfits, -⟩ := h
  unfold PgLinux.inRam inRange
  rw [Bool.and_eq_true, decide_eq_true_iff, decide_eq_true_iff, BitVec.le_def, BitVec.lt_def]
  exact ⟨hbase, by omega⟩

/-! ## The path -/

/-- Where a walk ends: a PTE outside RAM, a fault, or the leaf at address `a` with A and D set. -/
inductive PathEnd where
  | outside
  | fault
  | leaf (level : Nat) (a pte : U64)
deriving DecidableEq

def findLeaf (ramSize : U64) (ram : Mem) (va : U64) : Nat → U64 → PathEnd
  | 0, _ => .fault
  | level + 1, pt =>
    let a := pteAddr pt va level
    if pteInRam ramSize a then
      let pte := ram.read (a - ramBase) 8
      if !pteV pte || pteReserved pte then .fault
      else if pteLeaf pte then .leaf level a (marked pte)
      else findLeaf ramSize ram va level (nextTable pte)
    else .outside

def Cpu.path (c : Cpu) (va : U64) : PathEnd := findLeaf c.ram_size c.bus.mem.ram va 3 (rootTable c.csr.satp)

theorem readPte_inRam {c : Cpu} {a : U64} (h : pteInRam c.ram_size a = true) :
    readPte a c = .ok (c.bus.mem.ram.read (a - ramBase) 8) c := by
  show (if pteInRam c.ram_size a then return c.bus.mem.ram.read (a - ramBase) 8 else busLoadM a 8 : Access U64) c = _
  rw [if_pos h]
  rfl

theorem pteLeaf_readable {pte : U64} (hr : pteReserved pte = false) (hl : pteLeaf pte = true) :
    pteR pte = true ∨ pteX pte = true := by
  by_contra hno
  rw [not_or, Bool.not_eq_true, Bool.not_eq_true] at hno
  obtain ⟨hR, hX⟩ := hno
  have hW : pteW pte = false := by
    unfold pteReserved at hr
    rw [hR] at hr
    simpa using hr
  have hmask : ∀ j : Fin 64, rwxMask.getLsbD j.val = true → j.val = 1 ∨ j.val = 2 ∨ j.val = 3 := by decide
  have hzero : pte &&& rwxMask = 0#64 := by
    refine BitVec.eq_of_getLsbD_eq fun i hi => ?_
    rw [BitVec.getLsbD_and, BitVec.getLsbD_zero]
    cases hm : rwxMask.getLsbD i with
    | false => exact Bool.and_false _
    | true =>
      rw [Bool.and_true]
      obtain h | h | h := hmask ⟨i, hi⟩ hm
      · exact (congrArg pte.getLsbD h).trans hR
      · exact (congrArg pte.getLsbD h).trans hW
      · exact (congrArg pte.getLsbD h).trans hX
  unfold pteLeaf at hl
  rw [hzero] at hl
  cases hl

section Walk

variable [NetDevice]

/-- One level of the walk, its PTE read. -/
theorem walk_read {c d : Cpu} {va pt pte : U64} {level : Nat} (h : readPte (pteAddr pt va level) c = .ok pte d)
    (access : AccessType) : walk va access (level + 1) pt c =
      if !pteV pte || pteReserved pte then .error (faultCode access) d
      else if pteLeaf pte then
        if leafAllows d access level pte then walkLeaf va access level (pteAddr pt va level) pte d
        else .error (faultCode access) d
      else walk va access level (nextTable pte) d := by
  show (readPte (pteAddr pt va level) >>= _) c = _
  rw [Prog.bind_of_ok h]
  cases hbad : (!pteV pte || pteReserved pte) with
  | true => rfl
  | false =>
    cases hleaf : pteLeaf pte with
    | true =>
      show (if leafAllows d access level pte then _ else _ : Access U64) d = _
      cases hok : leafAllows d access level pte <;> rfl
    | false => rfl

/-- Its PTE in RAM. -/
theorem walk_succ {c : Cpu} {va pt : U64} {access : AccessType} {level : Nat}
    (h : pteInRam c.ram_size (pteAddr pt va level) = true) :
    walk va access (level + 1) pt c =
      let pte := c.bus.mem.ram.read (pteAddr pt va level - ramBase) 8
      if !pteV pte || pteReserved pte then .error (faultCode access) c
      else if pteLeaf pte then
        if leafAllows c access level pte then walkLeaf va access level (pteAddr pt va level) pte c
        else .error (faultCode access) c
      else walk va access level (nextTable pte) c := walk_read (readPte_inRam h) access

theorem walk_fault {c : Cpu} {va : U64} (access : AccessType) : ∀ {n : Nat} {pt : U64},
    findLeaf c.ram_size c.bus.mem.ram va n pt = .fault → walk va access n pt c = .error (faultCode access) c
  | 0, _, _ => rfl
  | level + 1, pt, h => by
    unfold findLeaf at h
    dsimp only at h
    split at h
    next hin =>
      rw [walk_succ hin]
      dsimp only
      split at h
      next hbad => rw [if_pos hbad]
      next hbad =>
        split at h
        · cases h
        next hleaf =>
          rw [if_neg hbad, if_neg hleaf]
          exact walk_fault access h
    · cases h

/-- What the path says about its leaf, and the walk it stands for. -/
structure LeafAt (c : Cpu) (va : U64) (n level : Nat) (pt a p pte : U64) : Prop where
  addr : IsPteAddr c.ram_size a
  read : pte = c.bus.mem.ram.read (a - ramBase) 8
  mark : p = marked pte
  readable : pteR pte = true ∨ pteX pte = true
  level_lt : level < n
  walk : ∀ access, walk va access n pt c =
    if leafAllows c access level p then walkLeaf va access level a pte c else .error (faultCode access) c

theorem findLeaf_leaf {c : Cpu} {va : U64} : ∀ {n : Nat} {pt : U64} {level : Nat} {a p : U64}, IsTable pt →
    findLeaf c.ram_size c.bus.mem.ram va n pt = .leaf level a p → ∃ pte, LeafAt c va n level pt a p pte
  | 0, _, _, _, _, _, h => by cases h
  | l + 1, pt, level, a, p, hpt, h => by
    unfold findLeaf at h
    dsimp only at h
    split at h
    next hin =>
      split at h
      · cases h
      next hbad =>
        split at h
        next hleaf =>
          cases h
          have hres : pteReserved (c.bus.mem.ram.read (pteAddr pt va l - ramBase) 8) = false := by
            rw [Bool.not_eq_true, Bool.or_eq_false_iff] at hbad
            exact hbad.2
          refine ⟨_, pteAddr_ok hpt hin, rfl, rfl, pteLeaf_readable hres hleaf, Nat.lt_succ_self _, fun access => ?_⟩
          rw [walk_succ hin]
          dsimp only
          rw [if_neg hbad, if_pos hleaf, leafAllows_marked]
        next hleaf =>
          obtain ⟨pte, hl⟩ := findLeaf_leaf (nextTable_isTable _) h
          refine ⟨pte, hl.addr, hl.read, hl.mark, hl.readable, Nat.lt_succ_of_lt hl.level_lt, fun access => ?_⟩
          rw [walk_succ hin]
          dsimp only
          rw [if_neg hbad, if_neg hleaf]
          exact hl.walk access
    · cases h

/-- The machine once a leaf was used: A and D in memory, the entry in the TLB. -/
def Cpu.useLeaf (c : Cpu) (va : U64) (access : AccessType) (level : Nat) (a pte : U64) : Cpu :=
  let c' := if withAD pte access ≠ pte then c.writeRam (a - ramBase) 8 (withAD pte access) else c
  { c' with tlb := setAt c.tlb (tlbIndex va) (leafEntry c.ram_size va level pte (withAD pte access)) }

theorem walkLeaf_inRam {c : Cpu} {a : U64} (h : IsPteAddr c.ram_size a) (va : U64) (access : AccessType) (level : Nat)
    (pte : U64) : walkLeaf va access level a pte c = .ok (leafPa level pte va) (c.useLeaf va access level a pte) := by
  have hstore : busStoreM a 8 (withAD pte access) c = .ok () (c.writeRam (a - ramBase) 8 (withAD pte access)) := by
    show EStateM.Result.ok () { c with bus := busStore c.ram_size c.bus a 8 (withAD pte access) } = _
    unfold busStore
    rw [if_pos h.inRam]
    rfl
  unfold walkLeaf Cpu.useLeaf
  dsimp only
  by_cases hne : withAD pte access ≠ pte
  · rw [if_pos hne, if_pos hne]
    rw [Prog.bind_of_ok hstore]
    rfl
  · rw [if_neg hne, if_neg hne]
    rfl

end Walk

/-! ## What leaves a path alone -/

theorem findLeaf_congr {ramSize : U64} {ram ram' : Mem}
    (hw : ∀ b, IsPteAddr ramSize b → marked (ram'.read (b - ramBase) 8) = marked (ram.read (b - ramBase) 8)) (va : U64) :
    ∀ {n : Nat} {pt : U64}, IsTable pt → findLeaf ramSize ram' va n pt = findLeaf ramSize ram va n pt
  | 0, _, _ => rfl
  | level + 1, pt, hpt => by
    unfold findLeaf
    dsimp only
    by_cases hin : pteInRam ramSize (pteAddr pt va level) = true
    · have hword := hw _ (pteAddr_ok hpt hin)
      rw [if_pos hin, if_pos hin]
      generalize ram'.read (pteAddr pt va level - ramBase) 8 = pte' at hword ⊢
      generalize ram.read (pteAddr pt va level - ramBase) 8 = pte at hword ⊢
      rw [findLeaf_congr hw va (nextTable_isTable pte'), ← pteV_marked pte', ← pteReserved_marked pte',
        ← pteLeaf_marked pte', ← nextTable_marked pte', hword, pteV_marked, pteReserved_marked, pteLeaf_marked,
        nextTable_marked]
    · rw [if_neg hin, if_neg hin]

/-- **Addresses of one page have one path.** -/
theorem findLeaf_page {va va' : U64} (h : vpnOf va = vpnOf va') (ramSize : U64) (ram : Mem) :
    ∀ (n : Nat) (pt : U64), findLeaf ramSize ram va n pt = findLeaf ramSize ram va' n pt
  | 0, _ => rfl
  | level + 1, pt => by
    unfold findLeaf pteAddr
    rw [vpnAt_page h]
    dsimp only
    rw [findLeaf_page h ramSize ram level _]

theorem Mem.read_write_pte (ram : Mem) (a new : U64) : (ram.write a 8 new).read a 8 = new := by
  refine BitVec.eq_of_getLsbD_eq fun i hi => ?_
  have hlt : i < 8 * 8 := hi
  rw [Mem.read_write_same _ _ _ _ _ hi, decide_eq_true hlt, Bool.true_and]

/-- Two PTEs are the same word or apart. -/
theorem IsPteAddr.read_write_ne {ramSize a b : U64} (ha : IsPteAddr ramSize a) (hb : IsPteAddr ramSize b) (hab : b ≠ a)
    (ram : Mem) (new : U64) : (ram.write (a - ramBase) 8 new).read (b - ramBase) 8 = ram.read (b - ramBase) 8 := by
  have hne : a.toNat ≠ b.toNat := fun h => hab (BitVec.eq_of_toNat_eq h.symm)
  have hoa := ha.offset
  have hob := hb.offset
  have hma := ha.aligned
  have hmb := hb.aligned
  have hba := ha.base
  have hbb := hb.base
  have hsa := ha.small
  have hsb := hb.small
  have hb64 : ramBase.toNat = 0x80000000 := rfl
  rw [Mem.read_write_of_disjoint]
  intro i hi
  rw [BitVec.toNat_sub, BitVec.toNat_add, BitVec.toNat_ofNat, hoa, hob]
  omega

/-- **Marking a PTE moves no path.** -/
theorem findLeaf_mark {ramSize a new : U64} {ram : Mem} (ha : IsPteAddr ramSize a)
    (hnew : marked new = marked (ram.read (a - ramBase) 8)) (va : U64) {n : Nat} {pt : U64} (hpt : IsTable pt) :
    findLeaf ramSize (ram.write (a - ramBase) 8 new) va n pt = findLeaf ramSize ram va n pt := by
  refine findLeaf_congr (fun b hb => ?_) va hpt
  by_cases hab : b = a
  · subst hab
    rw [Mem.read_write_pte, hnew]
  · rw [ha.read_write_ne hb hab]

theorem path_page {c : Cpu} {va va' : U64} (h : vpnOf va = vpnOf va') : c.path va = c.path va' := findLeaf_page h _ _ _ _

@[simp] theorem useLeaf_ram_size (c : Cpu) (va : U64) (access : AccessType) (level : Nat) (a pte : U64) :
    (c.useLeaf va access level a pte).ram_size = c.ram_size := by
  unfold Cpu.useLeaf
  dsimp only
  split <;> rfl

@[simp] theorem useLeaf_tlb (c : Cpu) (va : U64) (access : AccessType) (level : Nat) (a pte : U64) :
    (c.useLeaf va access level a pte).tlb =
      setAt c.tlb (tlbIndex va) (leafEntry c.ram_size va level pte (withAD pte access)) := rfl

section Translate

variable [NetDevice]

/-- **Using a leaf moves no path.** -/
theorem path_useLeaf {c : Cpu} {va : U64} {n level : Nat} {pt a p pte : U64} (h : LeafAt c va n level pt a p pte)
    (access : AccessType) (va' : U64) : (c.useLeaf va access level a pte).path va' = c.path va' := by
  unfold Cpu.useLeaf
  dsimp only
  split
  · refine findLeaf_mark h.addr ?_ va' (rootTable_isTable _)
    rw [marked_withAD, ← h.read]
  · rfl

theorem rv64Translate_hit {c : Cpu} {va pa : U64} {access : AccessType} (hp : c.priv ≠ privM)
    (hs : satpMode c.csr.satp ≠ satpModeBare) (h : tlbLookup c va access = some pa) :
    rv64Translate va access c = .ok pa c := by
  unfold rv64Translate
  rw [Prog.get_bind_apply, if_neg hp, if_neg hs, h]
  rfl

theorem rv64Translate_miss {c : Cpu} {va : U64} {access : AccessType} (hp : c.priv ≠ privM)
    (hs : satpMode c.csr.satp ≠ satpModeBare) (h : tlbLookup c va access = none) :
    rv64Translate va access c = walk va access 3 (rootTable c.csr.satp) c := by
  unfold rv64Translate
  rw [Prog.get_bind_apply, if_neg hp, if_neg hs, h]

/-- **A walk in RAM** faults and changes nothing, or uses the leaf its path ends in. -/
theorem walk_cases {c : Cpu} {va : U64} (access : AccessType) (h : c.path va ≠ .outside) :
    walk va access 3 (rootTable c.csr.satp) c = .error (faultCode access) c ∨
      ∃ level a p pte, c.path va = .leaf level a p ∧ LeafAt c va 3 level (rootTable c.csr.satp) a p pte ∧
        leafAllows c access level p = true ∧
        walk va access 3 (rootTable c.csr.satp) c = .ok (leafPa level p va) (c.useLeaf va access level a pte) := by
  cases hpath : c.path va with
  | outside => exact absurd hpath h
  | fault => exact .inl (walk_fault access hpath)
  | leaf level a p =>
    obtain ⟨pte, hl⟩ := findLeaf_leaf (rootTable_isTable _) hpath
    by_cases hok : leafAllows c access level p = true
    · refine .inr ⟨level, a, p, pte, rfl, hl, hok, ?_⟩
      rw [hl.walk access, if_pos hok, walkLeaf_inRam hl.addr, hl.mark, leafPa_marked]
    · refine .inl ?_
      rw [hl.walk access, if_neg hok]

end Translate

end PgLinux
