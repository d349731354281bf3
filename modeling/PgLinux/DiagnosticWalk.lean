import PgLinux.Sv39Checks
/-!
# DiagnosticWalk — `vm_translate` (`rv64_pgext.c`) beside `rv64_translate`

A second walk of the page tables, for whoever debugs a page fault: it reports every entry it reads and why a store
would fail.  RAM is mapped, so that no read of an entry fails.
-/
namespace PgLinux

open Prog

/-! ## The report -/

inductive FaultReason where
  | bare | machine | invalid (level : Nat) | reserved | ok | noWrite (flags : List Char) | userOfSupervisor
  | supervisorOfUser | noLeaf
deriving DecidableEq

def FaultReason.text : FaultReason → String
  | .bare => "bare mode (identity)"
  | .machine => "M-mode (no translation)"
  | .invalid level => "PTE invalid at level " ++ toString level
  | .reserved => "reserved RWX bits"
  | .ok => "OK"
  | .noWrite flags => "no write permission (flags=" ++ String.ofList flags ++ ")"
  | .userOfSupervisor => "user access to supervisor page"
  | .supervisorOfUser => "supervisor access to user page (SUM=0)"
  | .noLeaf => "no leaf found (ran out of levels)"

/-- The reasons that are no fault. -/
def FaultReason.isOk : FaultReason → Bool
  | .bare | .machine | .ok => true
  | _ => false

structure PteReport where
  pte_addr : U64
  pte_val : U64
  pte_flags : List Char

/-- The columns; `none` is NULL.  The entries are in the order of the walk. -/
structure TranslateReport where
  mode : U64
  satp_ppn : Option U64 := none
  vpn2 : Option U64 := none
  vpn1 : Option U64 := none
  vpn0 : Option U64 := none
  page_offset : Option U64 := none
  ptes : List PteReport := []
  leaf_level : Option Int := none
  phys_addr : Option U64 := none
  fault_reason : Option FaultReason := none

def pteFlags (pte : U64) : List Char :=
  [if pteV pte then 'V' else '-', if pteR pte then 'R' else '-', if pteW pte then 'W' else '-',
    if pteX pte then 'X' else '-', if pteU pte then 'U' else '-', if pte.getLsbD 5 then 'G' else '-',
    if pte.getLsbD 6 then 'A' else '-', if pte.getLsbD 7 then 'D' else '-']

/-- "Check permissions for store". -/
def storeReason (c : Cpu) (pte : U64) : FaultReason :=
  if !pteW pte then .noWrite (pteFlags pte)
  else if c.priv == privU && !pteU pte then .userOfSupervisor
  else if c.priv == privS && pteU pte && !c.sum then .supervisorOfUser
  else .ok

/-- The walk, from `level + 1` levels down. -/
def translateLoop (va : U64) : Nat → U64 → Cpu → TranslateReport → TranslateReport × Cpu
  | 0, _, c, r => (r, c)
  | level + 1, ptAddr, c, r =>
    let a := pteAddr ptAddr va level
    let b := busLoad c.ram_size c.bus a 8
    let c := { c with bus := b.2 }
    let pte := b.1
    let r := { r with ptes := r.ptes ++ [⟨a, pte, pteFlags pte⟩] }
    if !pteV pte then ({ r with fault_reason := some (.invalid level) }, c)
    else if pteReserved pte then ({ r with fault_reason := some .reserved }, c)
    else if pteLeaf pte then
      ({ r with leaf_level := some level, phys_addr := some (leafPa level pte va), fault_reason := some (storeReason c pte) }, c)
    else if level = 0 then ({ r with fault_reason := some .noLeaf }, c)
    else translateLoop va level (nextTable pte) c r

/-- `vm_translate`: the report, and the machine after its bus reads. -/
def vmTranslate (c : Cpu) (va : U64) : TranslateReport × Cpu :=
  let mode := satpMode c.csr.satp
  if mode = 0 then
    ({ mode := mode, leaf_level := some (-1), phys_addr := some va, fault_reason := some .bare }, c)
  else if c.priv = privM then
    ({ mode := mode, leaf_level := some (-1), phys_addr := some va, fault_reason := some .machine }, c)
  else
    translateLoop va 3 (rootTable c.csr.satp) c
      { mode := mode, satp_ppn := some (c.csr.satp &&& 0xFFFFFFFFFFF), vpn2 := some (vpnAt va 2), vpn1 := some (vpnAt va 1),
        vpn0 := some (vpnAt va 0), page_offset := some (pageOffset va) }

/-! ## Leaves and entries -/

theorem storeReason_ok {c : Cpu} {pte : U64} : storeReason c pte = .ok ↔ pteW pte = true ∧ privOk c (pteU pte) = true := by
  unfold storeReason privOk
  cases pteW pte <;> cases c.priv == privU && !pteU pte <;> cases c.priv == privS && pteU pte && !c.sum <;> simp

theorem storeReason_isOk {c : Cpu} {pte : U64} (h : storeReason c pte ≠ .ok) : (storeReason c pte).isOk = false := by
  unfold storeReason at h ⊢
  split <;> rename_i h1
  · rfl
  · split <;> rename_i h2
    · rfl
    · split <;> rename_i h3
      · rfl
      · rw [if_neg h1, if_neg h2, if_neg h3] at h
        exact absurd rfl h

theorem leafAllows_store {c : Cpu} {level : Nat} {pte : U64} (h : storeReason c pte = .ok) :
    leafAllows c .write level pte = superpageAligned level pte := by
  obtain ⟨hw, hp⟩ := storeReason_ok.1 h
  unfold leafAllows accessOk
  rw [hw, hp]
  rfl

theorem not_leafAllows_store {c : Cpu} {level : Nat} {pte : U64} (h : storeReason c pte ≠ .ok) :
    leafAllows c .write level pte = false := by
  rw [← Bool.not_eq_true]
  intro hok
  unfold leafAllows accessOk at hok
  rw [Bool.and_eq_true, Bool.and_eq_true] at hok
  exact h (storeReason_ok.2 ⟨hok.1.2, hok.1.1⟩)

/-- The entries in RAM that the one reads inline the other reads over the bus. -/
theorem readPte_busLoad {c : Cpu} {pt : U64} (hpt : IsTable pt) (va : U64) (level : Nat) :
    readPte (pteAddr pt va level) c = .ok (busLoad c.ram_size c.bus (pteAddr pt va level) 8).1
      { c with bus := (busLoad c.ram_size c.bus (pteAddr pt va level) 8).2 } := by
  by_cases hin : pteInRam c.ram_size (pteAddr pt va level) = true
  · rw [readPte_inRam hin]
    unfold busLoad
    rw [if_pos (pteAddr_ok hpt hin).inRam]
  · show (if pteInRam c.ram_size (pteAddr pt va level) then _ else busLoadM (pteAddr pt va level) 8 : Access U64) c = _
    rw [if_neg hin]
    rfl

theorem storeReason_bus {c d : Cpu} (h : BusFrame c d) (pte : U64) : storeReason d pte = storeReason c pte := by
  obtain ⟨b, rfl⟩ := h
  rfl

/-! ## The translation beside it -/

section Walks

variable [NetDevice]

/-- `rv64_translate` without its TLB. -/
def freshTranslate (va : U64) (access : AccessType) : Access U64 := do
  let c ← get
  if c.priv = privM then return va
  else if satpMode c.csr.satp = satpModeBare then return va
  else walk va access 3 (rootTable c.csr.satp)

/-- A report agrees with a translation: it says that a store goes to `p`, or that it faults. -/
def ReportAgrees (r : TranslateReport) (w : EStateM.Result U64 Cpu U64) : Prop :=
  ∃ why, r.fault_reason = some why ∧
    (∀ p, why.isOk = true ∧ r.phys_addr = some p ↔ ∃ d, w = .ok p d) ∧ (why.isOk = false ↔ ∃ e d, w = .error e d)

/-- What `vm_translate` reports is what becomes of a store. -/
def Agrees (c : Cpu) (va : U64) : Prop := ReportAgrees (vmTranslate c va).1 (freshTranslate va .write c)

/-- The walk meets a superpage that a store may write to, at an address it cannot have. -/
def MisalignedStore (c : Cpu) (va : U64) : Prop :=
  ∃ level pte, c.Meets va level pte ∧ IsLeaf pte ∧ pteW pte = true ∧ privOk c (pteU pte) = true ∧
    superpageAligned level pte = false

theorem walkLeaf_pa (va : U64) (access : AccessType) (level : Nat) (a pte : U64) (c : Cpu) :
    ∃ d, walkLeaf va access level a pte c = .ok (leafPa level pte va) d := by
  unfold walkLeaf
  dsimp only
  split
  · exact ⟨_, rfl⟩
  · exact ⟨_, rfl⟩

/-- What the walks come to: a leaf that a store may use, and the translation faults only if it is misaligned. -/
structure ComesToStore (c : Cpu) (va : U64) (n : Nat) (pt : U64) (r : TranslateReport) (w : EStateM.Result U64 Cpu U64)
    (level : Nat) (pte : U64) : Prop where
  meets : Meets va n pt c level pte
  leaf : IsLeaf pte
  allowed : storeReason c pte = .ok
  only : ∀ l p, Meets va n pt c l p → IsLeaf p → l = level ∧ p = pte
  reason : r.fault_reason = some .ok
  phys : r.phys_addr = some (leafPa level pte va)
  aligned : superpageAligned level pte = true → ∃ d, w = .ok (leafPa level pte va) d
  misaligned : superpageAligned level pte = false → ∃ e d, w = .error e d

/-- Or a fault of both. -/
structure ComesToFault (c : Cpu) (va : U64) (n : Nat) (pt : U64) (r : TranslateReport) (w : EStateM.Result U64 Cpu U64) :
    Prop where
  reason : ∃ why, r.fault_reason = some why ∧ why.isOk = false
  fault : ∃ e d, w = .error e d
  none_allowed : ∀ l p, Meets va n pt c l p → IsLeaf p → storeReason c p ≠ .ok

section Step

variable {c d : Cpu} {va pt pte : U64} {level : Nat} {r : TranslateReport} {w : EStateM.Result U64 Cpu U64}

omit [NetDevice] in
theorem ComesToStore.lift {l : Nat} {p : U64} (hread : readPte (pteAddr pt va level) c = .ok pte d) (hbus : BusFrame c d)
    (hp : IsPointer pte) (h : ComesToStore d va level (nextTable pte) r w l p) : ComesToStore c va (level + 1) pt r w l p := by
  refine ⟨.next hread hp h.meets, h.leaf, (storeReason_bus hbus p) ▸ h.allowed, fun l' p' hm hl => ?_, h.reason, h.phys,
    h.aligned, h.misaligned⟩
  rcases (meets_succ hread).1 hm with ⟨-, rfl⟩ | ⟨-, hnext⟩
  · exact absurd hl hp.not_leaf
  · exact h.only l' p' hnext hl

omit [NetDevice] in
theorem ComesToFault.lift (hread : readPte (pteAddr pt va level) c = .ok pte d) (hbus : BusFrame c d)
    (hp : IsPointer pte) (h : ComesToFault d va level (nextTable pte) r w) : ComesToFault c va (level + 1) pt r w := by
  refine ⟨h.reason, h.fault, fun l p hm hl => ?_⟩
  rcases (meets_succ hread).1 hm with ⟨-, rfl⟩ | ⟨-, hnext⟩
  · exact absurd hl hp.not_leaf
  · rw [← storeReason_bus hbus p]
    exact h.none_allowed l p hnext hl

omit [NetDevice] in
/-- An entry that ends the walk, and no leaf. -/
theorem comesToFault_entry (hread : readPte (pteAddr pt va level) c = .ok pte d) (hleaf : ¬ IsLeaf pte)
    (hstop : IsPointer pte → level = 0) (hreason : ∃ why, r.fault_reason = some why ∧ why.isOk = false)
    (hfault : ∃ e d, w = .error e d) : ComesToFault c va (level + 1) pt r w := by
  refine ⟨hreason, hfault, fun l p hm hl => ?_⟩
  rcases (meets_succ hread).1 hm with ⟨-, rfl⟩ | ⟨hp, hnext⟩
  · exact absurd hl hleaf
  · obtain rfl := hstop hp
    cases hnext

/-- **The leaf the walk meets**: what the report says of it, and what the translation does. -/
theorem leaf_comes (hread : readPte (pteAddr pt va level) c = .ok pte d) (hbus : BusFrame c d) (hleaf : IsLeaf pte)
    (hreason : r.fault_reason = some (storeReason d pte)) (hphys : r.phys_addr = some (leafPa level pte va))
    (hw : w = if leafAllows d .write level pte then walkLeaf va .write level (pteAddr pt va level) pte d
      else .error (faultCode .write) d) :
    (∃ l p, ComesToStore c va (level + 1) pt r w l p) ∨ ComesToFault c va (level + 1) pt r w := by
  have honly : ∀ l p, Meets va (level + 1) pt c l p → IsLeaf p → l = level ∧ p = pte := by
    intro l p hm hl
    rcases (meets_succ hread).1 hm with h | ⟨hp, -⟩
    · exact h
    · exact absurd hleaf hp.not_leaf
  by_cases hok : storeReason d pte = .ok
  · have hokc : storeReason c pte = .ok := (storeReason_bus hbus pte) ▸ hok
    rw [leafAllows_store hok] at hw
    refine .inl ⟨level, pte, .here hread, hleaf, hokc, honly, hok ▸ hreason, hphys, fun ha => ?_, fun ha => ?_⟩
    · obtain ⟨e, he⟩ := walkLeaf_pa va .write level (pteAddr pt va level) pte d
      exact ⟨e, by rw [hw, if_pos ha, he]⟩
    · exact ⟨_, d, by rw [hw, if_neg (ne_true_of_eq_false ha)]⟩
  · rw [not_leafAllows_store hok, if_neg Bool.false_ne_true] at hw
    refine .inr ⟨⟨_, hreason, storeReason_isOk hok⟩, ⟨_, _, hw⟩, fun l p hm hl => ?_⟩
    obtain ⟨-, rfl⟩ := honly l p hm hl
    rwa [← storeReason_bus hbus p]

end Step

/-- **The two walks keep together.** -/
theorem translateLoop_walk {va : U64} : ∀ (level : Nat) {pt : U64} {c : Cpu} {r : TranslateReport}, IsTable pt →
    (∃ l p, ComesToStore c va (level + 1) pt (translateLoop va (level + 1) pt c r).1 (walk va .write (level + 1) pt c) l p) ∨
      ComesToFault c va (level + 1) pt (translateLoop va (level + 1) pt c r).1 (walk va .write (level + 1) pt c) := by
  intro level pt c r hpt
  have hread := readPte_busLoad (c := c) hpt va level
  have hbus : BusFrame c { c with bus := (busLoad c.ram_size c.bus (pteAddr pt va level) 8).2 } := ⟨_, rfl⟩
  rw [walk_read hread]
  unfold translateLoop
  dsimp only
  generalize (busLoad c.ram_size c.bus (pteAddr pt va level) 8).1 = pte at *
  rcases entry_cases pte with ⟨hbad, hleaf, hpointer⟩ | ⟨hgood, hleaf | ⟨hnot, hpointer⟩⟩
  · rw [if_pos hbad]
    refine .inr (comesToFault_entry hread hleaf (fun hp => absurd hp hpointer) ?_ ⟨_, _, rfl⟩)
    split
    · exact ⟨_, rfl, rfl⟩
    next hv =>
      rw [Bool.or_eq_true] at hbad
      rw [if_pos (hbad.resolve_left hv)]
      exact ⟨_, rfl, rfl⟩
  · obtain ⟨hv, hres⟩ := Bool.or_eq_false_iff.1 hgood
    rw [if_neg (ne_true_of_eq_false hgood), if_neg (ne_true_of_eq_false hv), if_neg (ne_true_of_eq_false hres),
      if_pos hleaf.leaf, if_pos hleaf.leaf]
    exact leaf_comes hread hbus hleaf rfl rfl rfl
  · obtain ⟨hv, hres⟩ := Bool.or_eq_false_iff.1 hgood
    have hnot' := ne_true_of_eq_false hnot
    rw [if_neg (ne_true_of_eq_false hgood), if_neg (ne_true_of_eq_false hv), if_neg (ne_true_of_eq_false hres),
      if_neg hnot', if_neg hnot']
    cases level with
    | zero => exact .inr (comesToFault_entry hread (fun hl => hpointer.not_leaf hl) (fun _ => rfl) ⟨_, rfl, rfl⟩ ⟨_, _, rfl⟩)
    | succ level =>
      rw [if_neg (Nat.succ_ne_zero level)]
      refine (translateLoop_walk level (nextTable_isTable pte)).imp ?_ fun h => h.lift hread hbus hpointer
      rintro ⟨l, p, h⟩
      exact ⟨l, p, h.lift hread hbus hpointer⟩

section Reports

variable {r : TranslateReport} {w : EStateM.Result U64 Cpu U64} {c : Cpu} {va : U64}

omit [NetDevice] in
/-- A report that no fault stands in agrees with a translation exactly when this returns its address. -/
theorem reportAgrees_ok {p : U64} {why : FaultReason} (hreason : r.fault_reason = some why) (hwhy : why.isOk = true)
    (hphys : r.phys_addr = some p) : ReportAgrees r w ↔ ∃ d, w = .ok p d := by
  constructor
  · rintro ⟨why', hr, hok, -⟩
    obtain rfl : why = why' := Option.some.inj (hreason.symm.trans hr)
    exact (hok p).1 ⟨hwhy, hphys⟩
  · rintro ⟨d, rfl⟩
    refine ⟨why, hreason, fun q => ⟨?_, ?_⟩, iff_of_false (by simp [hwhy]) (by rintro ⟨e, d, h⟩; cases h)⟩
    · rintro ⟨-, hq⟩
      obtain rfl : p = q := Option.some.inj (hphys.symm.trans hq)
      exact ⟨d, rfl⟩
    · rintro ⟨d', h⟩
      cases h
      exact ⟨hwhy, hphys⟩

omit [NetDevice] in
theorem ComesToStore.reports_iff {n l : Nat} {pt pte : U64} (h : ComesToStore c va n pt r w l pte) :
    ReportAgrees r w ↔ superpageAligned l pte = true := by
  rw [reportAgrees_ok h.reason rfl h.phys]
  cases ha : superpageAligned l pte with
  | true => exact iff_of_true (h.aligned ha) rfl
  | false =>
    obtain ⟨e, d, hw⟩ := h.misaligned ha
    refine iff_of_false ?_ Bool.false_ne_true
    rintro ⟨d', hok⟩
    rw [hw] at hok
    cases hok

omit [NetDevice] in
theorem ComesToFault.agrees {n : Nat} {pt : U64} (h : ComesToFault c va n pt r w) : ReportAgrees r w := by
  obtain ⟨why, hreason, hwhy⟩ := h.reason
  obtain ⟨e, d, hw⟩ := h.fault
  refine ⟨why, hreason, fun p => iff_of_false ?_ ?_, iff_of_true hwhy ⟨e, d, hw⟩⟩
  · rw [hwhy]
    exact fun hok => Bool.false_ne_true hok.1
  · rintro ⟨d', hok⟩
    rw [hw] at hok
    cases hok

omit [NetDevice] in
theorem vmTranslate_walks (hb : satpMode c.csr.satp ≠ satpModeBare) (hm : c.priv ≠ privM) :
    ∃ r, vmTranslate c va = translateLoop va 3 (rootTable c.csr.satp) c r :=
  ⟨_, (if_neg hb).trans (if_neg hm)⟩

omit [NetDevice] in
/-- Where nothing is translated the report says so, and names the address itself. -/
theorem vmTranslate_identity (h : c.priv = privM ∨ satpMode c.csr.satp = satpModeBare) :
    (vmTranslate c va).1.phys_addr = some va ∧ ∃ why, (vmTranslate c va).1.fault_reason = some why ∧ why.isOk = true := by
  by_cases hb : satpMode c.csr.satp = satpModeBare
  · have hbare : vmTranslate c va = _ := if_pos hb
    rw [hbare]
    exact ⟨rfl, _, rfl, rfl⟩
  · have hmachine : vmTranslate c va = _ := (if_neg hb).trans (if_pos (h.resolve_right hb))
    rw [hmachine]
    exact ⟨rfl, _, rfl, rfl⟩

theorem freshTranslate_identity (h : c.priv = privM ∨ satpMode c.csr.satp = satpModeBare) :
    freshTranslate va .write c = .ok va c := by
  unfold freshTranslate
  rw [get_bind_apply]
  split
  · rfl
  next hm =>
    rw [if_pos (h.resolve_left hm)]
    rfl

theorem freshTranslate_walks (hb : satpMode c.csr.satp ≠ satpModeBare) (hm : c.priv ≠ privM) :
    freshTranslate va .write c = walk va .write 3 (rootTable c.csr.satp) c := by
  unfold freshTranslate
  rw [get_bind_apply, if_neg hm, if_neg hb]

end Reports

/-- **The report agrees with the translation** exactly where no misaligned superpage lets the store through. -/
theorem agrees_iff (c : Cpu) (va : U64) :
    Agrees c va ↔ c.priv = privM ∨ satpMode c.csr.satp = satpModeBare ∨ ¬ MisalignedStore c va := by
  unfold Agrees
  rw [← or_assoc]
  by_cases hid : c.priv = privM ∨ satpMode c.csr.satp = satpModeBare
  · obtain ⟨hphys, why, hreason, hwhy⟩ := @vmTranslate_identity c va hid
    exact iff_of_true ((reportAgrees_ok hreason hwhy hphys).2 ⟨c, freshTranslate_identity hid⟩) (.inl hid)
  · obtain ⟨hm, hb⟩ := not_or.1 hid
    obtain ⟨r, hr⟩ := @vmTranslate_walks c va hb hm
    rw [or_iff_right hid, hr, freshTranslate_walks hb hm]
    obtain ⟨l, p, h⟩ | h := @translateLoop_walk _ va 2 _ c r (rootTable_isTable c.csr.satp)
    · rw [h.reports_iff]
      obtain ⟨hw, hpriv⟩ := storeReason_ok.1 h.allowed
      constructor
      · rintro ha ⟨l', p', hmeets, hleaf, -, -, hmis⟩
        obtain ⟨rfl, rfl⟩ := h.only l' p' hmeets hleaf
        rw [ha] at hmis
        cases hmis
      · intro hno
        rw [← Bool.not_eq_false]
        exact fun hmis => hno ⟨l, p, h.meets, h.leaf, hw, hpriv, hmis⟩
    · refine iff_of_true h.agrees ?_
      rintro ⟨l, p, hmeets, hleaf, hw, hpriv, -⟩
      exact h.none_allowed l p hmeets hleaf (storeReason_ok.2 ⟨hw, hpriv⟩)

end Walks

section Misaligned

local instance misalignedNet : NetDevice := NetDevice.silent

/-- Supervisor mode, with a 1 GiB page for 0x40000000 whose page number ends in a one. -/
def misalignedCpu : Cpu :=
  let c := rv64Init (Mem.write (fun _ => 0) 0x1008 8 0x2000040F) 0x80000000
  { c with priv := privS, csr := { c.csr with satp := 0x8000000000080001 } }

/-- **A store that faults is reported to succeed.** -/
theorem not_agrees_misaligned : ¬ Agrees misalignedCpu 0x40000123 := by
  rintro ⟨why, hreason, -, hfault⟩
  have hok : (vmTranslate misalignedCpu 0x40000123).1.fault_reason = some .ok := by decide +kernel
  obtain rfl : FaultReason.ok = why := Option.some.inj (hok.symm.trans hreason)
  have herror : failure (freshTranslate 0x40000123 .write misalignedCpu) = some (faultCode .write) := by decide +kernel
  cases hfault.2 ⟨_, _, eq_error_of_failure herror⟩

end Misaligned

end PgLinux
