import PgLinux.FaultAddress
import PgLinux.WalkSound
/-!
# Sv39Checks — what Sv39 refuses and the source does not

The source looks at bits 38:12 of an address, takes bits 63:54 of a leaf for a part of its page number, and gives SUM to
fetches as it does to loads.  `Escapes` names what gets past it for each of these reasons.
-/
namespace PgLinux

open Prog

/-! ## The entries a walk meets -/

/-- Bits 63:39 are all equal to bit 38. -/
def Canonical (va : U64) : Prop := ∀ i < 64, 39 ≤ i → va.getLsbD i = va.getLsbD 38

instance (va : U64) : Decidable (Canonical va) := inferInstanceAs (Decidable (∀ i < 64, _))

/-- Valid, and not a pointer. -/
structure IsLeaf (pte : U64) : Prop where
  valid : pteV pte = true
  not_reserved : pteReserved pte = false
  leaf : pteLeaf pte = true

/-- The walk from the table `pt`, with so many levels to go, reads `pte` at `level`. -/
inductive Meets (va : U64) : Nat → U64 → Cpu → Nat → U64 → Prop where
  | here {level : Nat} {pt pte : U64} {c d : Cpu} (h : readPte (pteAddr pt va level) c = .ok pte d) :
      Meets va (level + 1) pt c level pte
  | next {level l : Nat} {pt pte p : U64} {c d : Cpu} (h : readPte (pteAddr pt va level) c = .ok pte d) (hp : IsPointer pte)
      (hbelow : Meets va level (nextTable pte) d l p) : Meets va (level + 1) pt c l p

/-- The walk of `va` reads `pte` at `level`. -/
def Cpu.Meets (c : Cpu) (va : U64) (level : Nat) (pte : U64) : Prop := PgLinux.Meets va 3 (rootTable c.csr.satp) c level pte

theorem IsPointer.not_leaf {pte : U64} (h : IsPointer pte) : ¬ IsLeaf pte := by
  intro hl
  rcases pteLeaf_readable hl.not_reserved hl.leaf with hr | hx
  · rw [h.readable] at hr
    cases hr
  · rw [h.executable] at hx
    cases hx

/-- An entry is bad, a leaf or a pointer. -/
theorem entry_cases (pte : U64) : (!pteV pte || pteReserved pte) = true ∧ ¬ IsLeaf pte ∧ ¬ IsPointer pte ∨
    (!pteV pte || pteReserved pte) = false ∧ (IsLeaf pte ∨ pteLeaf pte = false ∧ IsPointer pte) := by
  cases hbad : (!pteV pte || pteReserved pte) with
  | true =>
    refine .inl ⟨rfl, fun h => ?_, fun h => ?_⟩
    · simp [h.valid, h.not_reserved] at hbad
    · simp [pteReserved, h.valid, h.writable] at hbad
  | false =>
    obtain ⟨hv, hres⟩ := entry_valid (ne_true_of_eq_false hbad)
    refine .inr ⟨rfl, ?_⟩
    cases hleaf : pteLeaf pte with
    | true => exact .inl ⟨hv, hres, hleaf⟩
    | false => exact .inr ⟨rfl, isPointer_of hv hleaf⟩

/-- The walk meets the entry it reads first, and what it meets after that where this is a pointer. -/
theorem meets_succ {va pt pte p : U64} {c d : Cpu} {level l : Nat} (hread : readPte (pteAddr pt va level) c = .ok pte d) :
    Meets va (level + 1) pt c l p ↔ l = level ∧ p = pte ∨ IsPointer pte ∧ Meets va level (nextTable pte) d l p := by
  constructor
  · intro h
    cases h with
    | here h =>
      rw [hread] at h
      cases h
      exact .inl ⟨rfl, rfl⟩
    | next h hp hnext =>
      rw [hread] at h
      cases h
      exact .inr ⟨hp, hnext⟩
  · rintro (⟨rfl, rfl⟩ | ⟨hp, hnext⟩)
    · exact .here hread
    · exact .next hread hp hnext

section Walk

variable [NetDevice] {va exc : U64} {access : AccessType}

/-- A leaf lets the access through. -/
def LetsThrough (c : Cpu) (access : AccessType) (level : Nat) (pte : U64) : Prop :=
  IsLeaf pte ∧ leafAllows c access level pte = true

omit [NetDevice] in
theorem letsThrough_bus {c d : Cpu} (h : BusFrame c d) (access : AccessType) (level : Nat) (pte : U64) :
    LetsThrough c access level pte ↔ LetsThrough d access level pte := by
  unfold LetsThrough
  rw [leafAllows_bus h]

/-- **A walk returns** exactly when it meets a leaf that lets the access through. -/
theorem walk_ok_iff : ∀ {n : Nat} {pt : U64} {c : Cpu}, (∃ pa c', walk va access n pt c = .ok pa c') ↔
    ∃ level pte, Meets va n pt c level pte ∧ LetsThrough c access level pte
  | 0, pt, c => by
    constructor
    · rintro ⟨pa, c', h⟩
      cases h
    · rintro ⟨level, pte, h, -⟩
      cases h
  | level + 1, pt, c => by
    obtain ⟨pte, d, hread⟩ := readPte_ok (pteAddr pt va level) c
    have hbus := readPte_bus (pteAddr pt va level) c
    rw [hread] at hbus
    simp only [meets_succ hread, letsThrough_bus (show BusFrame c d from hbus)]
    rw [walk_read hread]
    rcases entry_cases pte with ⟨hbad, hleaf, hpointer⟩ | ⟨hbad, hleaf | ⟨hnot, hpointer⟩⟩
    · rw [if_pos hbad]
      refine iff_of_false ?_ ?_
      · rintro ⟨pa, c', h⟩
        cases h
      · rintro ⟨l, p, ⟨rfl, rfl⟩ | ⟨hp, -⟩, hlets⟩
        · exact hleaf hlets.1
        · exact hpointer hp
    · have hpointer : ¬ IsPointer pte := fun hp => hp.not_leaf hleaf
      rw [if_neg (ne_true_of_eq_false hbad), if_pos hleaf.leaf]
      by_cases hok : leafAllows d access level pte = true
      · rw [if_pos hok]
        exact iff_of_true (walkLeaf_ok _ _ _ _ _ _) ⟨level, pte, .inl ⟨rfl, rfl⟩, hleaf, hok⟩
      · rw [if_neg hok]
        refine iff_of_false ?_ ?_
        · rintro ⟨pa, c', h⟩
          cases h
        · rintro ⟨l, p, ⟨rfl, rfl⟩ | ⟨hp, -⟩, hlets⟩
          · exact hok hlets.2
          · exact hpointer hp
    · rw [if_neg (ne_true_of_eq_false hbad), if_neg (ne_true_of_eq_false hnot), walk_ok_iff]
      constructor
      · rintro ⟨l, p, hnext, hlets⟩
        exact ⟨l, p, .inr ⟨hpointer, hnext⟩, hlets⟩
      · rintro ⟨l, p, ⟨rfl, rfl⟩ | ⟨-, hnext⟩, hlets⟩
        · exact absurd hlets.1 hpointer.not_leaf
        · exact ⟨l, p, hnext, hlets⟩

/-- The TLB has an entry for the page of `va`, which allows the access. -/
def InTlb (c : Cpu) (va : U64) (access : AccessType) : Prop :=
  (c.tlbEntry va).hits va = true ∧ tlbAllows c (c.tlbEntry va) access = true

omit [NetDevice] in
theorem inTlb_iff {c : Cpu} : InTlb c va access ↔ tlbLookup c va access ≠ none := by
  unfold InTlb tlbLookup
  dsimp only
  rw [← Bool.and_eq_true]
  split
  next h => exact iff_of_true h (Option.some_ne_none _)
  next h => exact iff_of_false h fun hne => hne rfl

omit [NetDevice] in
theorem not_inTlb_iff {c : Cpu} : ¬ InTlb c va access ↔ tlbLookup c va access = none := by
  rw [inTlb_iff, not_not]

/-- An entry of the TLB or a leaf of the walk lets the access through. -/
def Mapped (c : Cpu) (va : U64) (access : AccessType) : Prop :=
  InTlb c va access ∨ ∃ level pte, c.Meets va level pte ∧ LetsThrough c access level pte

/-- **A translation fails** exactly when nothing lets the access through. -/
theorem rv64Translate_fails_iff {c : Cpu} (hp : Paged c) :
    (∃ exc c', rv64Translate va access c = .error exc c') ↔ ¬ Mapped c va access := by
  have hbare : satpMode c.csr.satp ≠ satpModeBare := by
    rw [hp.2]
    decide
  have hok : (∃ exc c', rv64Translate va access c = .error exc c') ↔ ¬ ∃ pa c', rv64Translate va access c = .ok pa c' := by
    cases rv64Translate va access c with
    | ok pa c' => exact iff_of_false (by rintro ⟨_, _, h⟩; cases h) (not_not.2 ⟨pa, c', rfl⟩)
    | error exc c' => exact iff_of_true ⟨exc, c', rfl⟩ (by rintro ⟨_, _, h⟩; cases h)
  rw [hok, not_iff_not]
  unfold Mapped
  rw [inTlb_iff]
  cases hl : tlbLookup c va access with
  | some pa => simp [rv64Translate_hit hp.1 hbare hl]
  | none =>
    rw [rv64Translate_miss hp.1 hbare hl, walk_ok_iff]
    simp [Cpu.Meets]

omit [NetDevice] in
/-- A walk meets one leaf at most. -/
theorem Meets.leaf_unique {l l' n : Nat} {pt pte pte' : U64} {c : Cpu} (h : Meets va n pt c l pte) (hleaf : IsLeaf pte)
    (h' : Meets va n pt c l' pte') (hleaf' : IsLeaf pte') : l' = l ∧ pte' = pte := by
  induction h with
  | here hread =>
    rcases (meets_succ hread).1 h' with hhere | ⟨hp, -⟩
    · exact hhere
    · exact absurd hleaf hp.not_leaf
  | next hread hp _ ih =>
    rcases (meets_succ hread).1 h' with ⟨-, rfl⟩ | ⟨-, hnext⟩
    · exact absurd hleaf' hp.not_leaf
    · exact ih hleaf hnext

end Walk

/-! ## Accesses -/

/-- Where the fast path would access RAM. -/
def MemOp.fast : MemOp → Cpu → Option U64
  | .load va size access, c => loadFast c va size access
  | .store va size _, c => storeFast c va size

def MemOp.byteVa (op : MemOp) (i : Nat) : U64 := op.va + BitVec.ofNat 64 i

section Accesses

variable [NetDevice] {va val exc : U64} {access : AccessType} {op : MemOp} {c e : Cpu}

/-- The access comes to translate its byte `i` on the machine `d`: at once, or after the bytes before it. -/
def MemOp.Reaches : MemOp → Cpu → Nat → Cpu → Prop
  | .load va size access, c, i, d =>
    i = 0 ∧ d = c ∨ crossesPage va size = true ∧ i < size ∧ ∃ r, loadBytes va access i 0 0 c = .ok r d
  | .store va size val, c, i, d =>
    i = 0 ∧ d = logStore va size val c ∨
      crossesPage va size = true ∧ i < size ∧ storeBytes va val i 0 (logStore va size val c) = .ok () d

theorem loadBytes_error_iff {n : Nat} {c : Cpu} : loadBytes va access n 0 0 c = .error exc e ↔
    ∃ j < n, ∃ d, (∃ r, loadBytes va access j 0 0 c = .ok r d) ∧
      rv64Translate (va + BitVec.ofNat 64 j) access d = .error exc e := by
  refine (rounds_error_iff (fun i => rv64Translate (va + BitVec.ofNat 64 i) access) (loadBytes va access) (fun _ _ _ => rfl)
    (fun _ _ _ _ _ h _ => bind_of_error h) (fun _ _ _ _ _ h => ⟨_, _, fun _ => bind_of_ok h⟩) n 0 0 c).trans ?_
  simp only [Nat.zero_add]
  constructor
  · rintro ⟨j, hj, r, d, hrun, he⟩
    exact ⟨j, hj, d, ⟨r, hrun⟩, he⟩
  · rintro ⟨j, hj, d, ⟨r, hrun⟩, he⟩
    exact ⟨j, hj, r, d, hrun, he⟩

theorem storeBytes_error_iff {n : Nat} {c : Cpu} : storeBytes va val n 0 c = .error exc e ↔
    ∃ j < n, ∃ d, storeBytes va val j 0 c = .ok () d ∧ rv64Translate (va + BitVec.ofNat 64 j) .write d = .error exc e := by
  refine (rounds_error_iff (fun i => rv64Translate (va + BitVec.ofNat 64 i) .write) (fun n i _ => storeBytes va val n i)
    (fun _ _ _ => rfl) (fun _ _ _ _ _ h _ => bind_of_error h) (fun _ _ _ _ _ h => ⟨(), _, fun _ => bind_of_ok h⟩) n 0 () c).trans ?_
  simp only [Nat.zero_add]
  constructor
  · rintro ⟨j, hj, _, d, hrun, he⟩
    exact ⟨j, hj, d, hrun, he⟩
  · rintro ⟨j, hj, d, hrun, he⟩
    exact ⟨j, hj, (), d, hrun, he⟩

omit [NetDevice] in
/-- An access inside a page translates once; one that crosses pages translates its bytes in turn. -/
theorem pieces_iff {before : Nat → Cpu → Prop} {fails : Nat → Cpu → Prop} {cross : Bool} {size : Nat} (hzero : before 0 c)
    (hpos : cross = true → 0 < size) :
    (if cross = true then ∃ i < size, ∃ d, before i d ∧ fails i d else fails 0 c) ↔
      ∃ i d, (i = 0 ∧ d = c ∨ cross = true ∧ i < size ∧ before i d) ∧ fails i d := by
  by_cases hc : cross = true
  · rw [if_pos hc]
    constructor
    · rintro ⟨i, hi, d, hb, hf⟩
      exact ⟨i, d, .inr ⟨hc, hi, hb⟩, hf⟩
    · rintro ⟨i, d, ⟨rfl, rfl⟩ | ⟨-, hi, hb⟩, hf⟩
      · exact ⟨0, hpos hc, d, hzero, hf⟩
      · exact ⟨i, hi, d, hb, hf⟩
  · rw [if_neg hc]
    constructor
    · intro hf
      exact ⟨0, c, .inl ⟨rfl, rfl⟩, hf⟩
    · rintro ⟨i, d, ⟨rfl, rfl⟩ | ⟨h, -⟩, hf⟩
      · exact hf
      · exact absurd h hc

/-- **Where an access stops**: no fast path, and a byte it reaches is not translated. -/
theorem MemOp.faults_iff : op.Faults c exc e ↔ op.fast (op.entry c) = none ∧
    ∃ i d, op.Reaches c i d ∧ rv64Translate (op.byteVa i) op.access d = .error exc e := by
  have hpos (h : crossesPage op.va op.size = true) : 0 < op.size := by
    have := crossesPage_iff.1 h
    omega
  have hzero : op.byteVa 0 = op.va := BitVec.add_zero _
  cases op with
  | load va size access =>
    refine Iff.trans ?_ (and_congr_right' (pieces_iff (c := c) ⟨0, rfl⟩ hpos))
    show rv64CpuLoad va size access c = .error exc e ↔ loadFast c va size access = none ∧ _
    cases hfast : loadFast c va size access with
    | some p => simp [rv64CpuLoad_hit hfast]
    | none =>
      rw [rv64CpuLoad_miss hfast, eq_self, true_and, hzero]
      by_cases hcross : crossesPage va size = true
      · rw [if_pos hcross, loadBytes_error_iff]
        exact (if_pos hcross).symm.to_iff
      · have hbus (pa : U64) (d : Cpu) : ∃ v d', busLoadM pa size d = .ok v d' := ⟨_, _, rfl⟩
        rw [if_neg hcross, bind_error_iff hbus]
        exact (if_neg hcross).symm.to_iff
  | store va size val =>
    refine Iff.trans ?_ (and_congr_right' (pieces_iff (c := logStore va size val c) rfl hpos))
    show storeAt va size val (logStore va size val c) = .error exc e ↔ storeFast (logStore va size val c) va size = none ∧ _
    cases hfast : storeFast (logStore va size val c) va size with
    | some p => simp [storeAt_hit hfast]
    | none =>
      rw [storeAt_miss hfast, eq_self, true_and, hzero]
      by_cases hcross : crossesPage va size = true
      · rw [if_pos hcross, storeBytes_error_iff]
        exact (if_pos hcross).symm.to_iff
      · have hbus (pa : U64) (d : Cpu) : ∃ u d', busStoreM pa size val d = .ok u d' := ⟨_, _, rfl⟩
        rw [if_neg hcross, bind_error_iff hbus]
        exact (if_neg hcross).symm.to_iff

/-- The bytes of an access are reached in the mode it started in. -/
theorem MemOp.Reaches.frame {i : Nat} {d : Cpu} (h : op.Reaches c i d) : AccessFrame c d := by
  have hbus : BusRules AccessFrame := .of_any fun c b => ⟨c.tlb, b, c.dbg, rfl⟩
  cases op with
  | load va size access =>
    rcases h with ⟨-, rfl⟩ | ⟨-, -, r, hrun⟩
    · exact refl_of AccessFrame d
    · have hframe := leads_loadBytes hbus rv64Translate_frame va access i 0 0 c
      rw [hrun] at hframe
      exact hframe
  | store va size val =>
    have hlog : AccessFrame c (logStore va size val c) := by
      obtain ⟨d, hd⟩ := logStore_dbg va size val c
      exact ⟨c.tlb, c.bus, d, hd⟩
    rcases h with ⟨-, rfl⟩ | ⟨-, -, hrun⟩
    · exact hlog
    · have hframe := leads_storeBytes hbus rv64Translate_frame va val i 0 (logStore va size val c)
      rw [hrun] at hframe
      exact trans_of AccessFrame hlog hframe

end Accesses

/-! ## What must be refused -/

/-- A walk that has to be made meets an entry with one of bits 63:54. -/
def MeetsReserved (c : Cpu) (va : U64) (access : AccessType) : Prop :=
  tlbLookup c va access = none ∧ ∃ level pte, c.Meets va level pte ∧ pte >>> 54 ≠ 0

/-- The page that a fetch finds, in the TLB or by a walk, has U=1. -/
def FetchesUser (c : Cpu) (va : U64) : Prop :=
  tlbLookup c va .exec ≠ none ∧ pteU (c.tlbEntry va).perm = true ∨
    tlbLookup c va .exec = none ∧ ∃ level pte, c.Meets va level pte ∧ IsLeaf pte ∧ pteU pte = true

/-- Sv39 refuses the access. -/
def MustRefuse (c : Cpu) (va : U64) (access : AccessType) : Prop :=
  ¬ Canonical va ∨ MeetsReserved c va access ∨ c.priv = privS ∧ access = .exec ∧ FetchesUser c va

/-! ## What gets past the source -/

/-- Code in a page with U=1: by an entry of the TLB, or by an aligned leaf that the walk meets. -/
inductive UserCode (c : Cpu) (va : U64) : Prop where
  | entry (hit : (c.tlbEntry va).hits va = true) (exec : pteX (c.tlbEntry va).perm = true)
    (user : pteU (c.tlbEntry va).perm = true) : UserCode c va
  | leaf {level : Nat} {pte : U64} (miss : ¬ InTlb c va .exec) (meets : c.Meets va level pte) (leaf : IsLeaf pte)
    (aligned : superpageAligned level pte = true) (exec : pteX pte = true) (user : pteU pte = true) : UserCode c va

/-- The three kinds of access that Sv39 refuses and the source lets through. -/
inductive Escapes (c : Cpu) (va : U64) (access : AccessType) : Prop where
  /-- An address with other bits 63:39 than bit 38, where the page of its bits 38:12 is mapped. -/
  | alias (noncanonical : ¬ Canonical va) (mapped : Mapped c va access) : Escapes c va access
  /-- A walk by an entry with one of bits 63:54, which ends in a leaf that passes the checks there are. -/
  | reserved {level level' : Nat} {pte leaf : U64} (miss : ¬ InTlb c va access) (meets : c.Meets va level pte)
    (bits : pte >>> 54 ≠ 0) (ends : c.Meets va level' leaf) (lets : LetsThrough c access level' leaf) : Escapes c va access
  /-- A fetch of S mode from a page with U=1, under SUM. -/
  | sumFetch (supervisor : c.priv = privS) (fetch : access = .exec) (sum : c.sum = true) (user : UserCode c va) :
    Escapes c va access

theorem privOk_supervisor {c : Cpu} (hs : c.priv = privS) : privOk c true = c.sum := by
  unfold privOk
  rw [hs]
  cases c.sum <;> rfl

theorem UserCode.mapped {c : Cpu} {va : U64} (h : UserCode c va) (hs : c.priv = privS) (hsum : c.sum = true) :
    FetchesUser c va ∧ Mapped c va .exec := by
  cases h with
  | entry hit exec user =>
    have hin : InTlb c va .exec := by
      refine ⟨hit, ?_⟩
      unfold tlbAllows accessOk
      rw [user, privOk_supervisor hs, hsum, exec]
      rfl
    exact ⟨.inl ⟨inTlb_iff.1 hin, user⟩, .inl hin⟩
  | @leaf level pte miss meets leaf aligned exec user =>
    refine ⟨.inr ⟨not_inTlb_iff.1 miss, level, pte, meets, leaf, user⟩, .inr ⟨level, pte, meets, leaf, ?_⟩⟩
    unfold leafAllows accessOk
    rw [user, privOk_supervisor hs, hsum, exec, aligned]
    rfl

/-- A page that S mode finds for a fetch has U=1 only under SUM. -/
theorem userCode_of {c : Cpu} {va : U64} (hs : c.priv = privS) (hu : FetchesUser c va) (hm : Mapped c va .exec) :
    c.sum = true ∧ UserCode c va := by
  rcases hu with ⟨hin, hu⟩ | ⟨hmiss, level, pte, hmeets, hleaf, hu⟩
  · obtain ⟨hit, hallows⟩ := inTlb_iff.2 hin
    unfold tlbAllows accessOk at hallows
    rw [hu, privOk_supervisor hs, Bool.and_eq_true, Bool.and_eq_true] at hallows
    exact ⟨hallows.2, .entry hit hallows.1.1 hu⟩
  · have hnot := not_inTlb_iff.2 hmiss
    obtain ⟨level', pte', hmeets', hleaf', hallows⟩ := hm.resolve_left hnot
    obtain ⟨rfl, rfl⟩ := hmeets.leaf_unique hleaf hmeets' hleaf'
    unfold leafAllows accessOk at hallows
    rw [hu, privOk_supervisor hs, Bool.and_eq_true, Bool.and_eq_true] at hallows
    exact ⟨hallows.1.1, .leaf hnot hmeets hleaf hallows.2 hallows.1.2 hu⟩

/-- **What must be refused and is not** escapes in one of the three ways. -/
theorem escapes_iff {c : Cpu} {va : U64} {access : AccessType} :
    Escapes c va access ↔ MustRefuse c va access ∧ Mapped c va access := by
  constructor
  · rintro (⟨hcanonical, hmapped⟩ | ⟨hmiss, hmeets, hbits, hends, hlets⟩ | ⟨hs, rfl, hsum, huser⟩)
    · exact ⟨.inl hcanonical, hmapped⟩
    · exact ⟨.inr (.inl ⟨not_inTlb_iff.1 hmiss, _, _, hmeets, hbits⟩), .inr ⟨_, _, hends, hlets⟩⟩
    · obtain ⟨hfetches, hmapped⟩ := huser.mapped hs hsum
      exact ⟨.inr (.inr ⟨hs, rfl, hfetches⟩), hmapped⟩
  · rintro ⟨hcanonical | ⟨hmiss, level, pte, hmeets, hbits⟩ | ⟨hs, rfl, hfetches⟩, hmapped⟩
    · exact .alias hcanonical hmapped
    · have hnot := not_inTlb_iff.2 hmiss
      obtain ⟨level', leaf, hends, hlets⟩ := hmapped.resolve_left hnot
      exact .reserved hnot hmeets hbits hends hlets
    · obtain ⟨hsum, huser⟩ := userCode_of hs hfetches hmapped
      exact .sumFetch hs rfl hsum huser

section Result

variable [NetDevice] {op : MemOp} {c : Cpu}

/-- Sv39 refuses the access at one of the bytes it comes to. -/
def MemOp.MustFault (op : MemOp) (c : Cpu) : Prop := ∃ i d, op.Reaches c i d ∧ MustRefuse d (op.byteVa i) op.access

/-- The access is refused where it must be. -/
def MemOp.Mandatory (op : MemOp) (c : Cpu) : Prop := op.MustFault c → ∃ e, op.Faults c (faultCode op.access) e

/-- A load is no access of type `ACCESS_WRITE`. -/
def MemOp.Typed : MemOp → Prop
  | .load _ _ access => access ≠ .write
  | .store _ _ _ => True

omit [NetDevice] in
/-- What the fast path of a load checks of the entry's R, W and X bits. -/
theorem loadRights_eq {access : AccessType} (h : access ≠ .write) (perm : U8) :
    (if access = .exec then pteX perm else readOk c (pteR perm) (pteX perm)) = accessOk c perm access := by
  cases access with
  | write => exact absurd rfl h
  | read | exec => rfl

omit [NetDevice] in
/-- What a fast path takes is inside a page, and in the TLB. -/
theorem MemOp.fast_inTlb (hop : op.Typed) (h : op.fast c ≠ none) :
    crossesPage op.va op.size = false ∧ InTlb c op.va op.access := by
  cases op with
  | load va size access =>
    have hne : access ≠ .write := hop
    unfold MemOp.fast loadFast at h
    dsimp only at h
    rw [loadRights_eq hne] at h
    obtain ⟨⟨⟨hit, hok⟩, hpriv⟩, hcross⟩ : ((_ ∧ _) ∧ _) ∧ _ := by
      simpa only [Bool.and_eq_true] using (ite_ne_right_iff.1 h).1
    refine ⟨(Bool.not_eq_true' _).mp hcross, hit, ?_⟩
    unfold tlbAllows
    show (accessOk c (c.tlbEntry va).perm access && (access != .write || _) && privOk c (pteU (c.tlbEntry va).perm)) = true
    rw [hok, hpriv, bne_iff_ne.2 hne]
    rfl
  | store va size val =>
    unfold MemOp.fast storeFast at h
    dsimp only at h
    obtain ⟨⟨⟨hit, hok⟩, hpriv⟩, hcross⟩ : ((_ ∧ _) ∧ _) ∧ _ := by
      simpa only [Bool.and_eq_true (pteW _ && _), Bool.and_eq_true] using (ite_ne_right_iff.1 h).1
    refine ⟨(Bool.not_eq_true' _).mp hcross, hit, ?_⟩
    show (pteW (c.tlbEntry va).perm && (c.tlbEntry va).dirty && privOk c (pteU (c.tlbEntry va).perm)) = true
    rw [hok.1, hok.2, hpriv]
    rfl

/-- An access inside a page comes to its first byte alone. -/
theorem MemOp.Reaches.first {i : Nat} {d : Cpu} (hcross : crossesPage op.va op.size = false) (h : op.Reaches c i d) :
    i = 0 ∧ d = op.entry c := by
  cases op with
  | load va size access =>
    rcases h with h | ⟨h, -⟩
    · exact h
    · exact absurd (hcross.symm.trans h) Bool.false_ne_true
  | store va size val =>
    rcases h with h | ⟨h, -⟩
    · exact h
    · exact absurd (hcross.symm.trans h) Bool.false_ne_true

/-- **An access faults** exactly when it has no fast path and comes to a byte that is not mapped. -/
theorem MemOp.pageFaults_iff (hpaged : Paged c) : (∃ e, op.Faults c (faultCode op.access) e) ↔
    op.fast (op.entry c) = none ∧ ∃ i d, op.Reaches c i d ∧ ¬ Mapped d (op.byteVa i) op.access := by
  constructor
  · rintro ⟨e, h⟩
    obtain ⟨hfast, i, d, hreach, he⟩ := MemOp.faults_iff.1 h
    exact ⟨hfast, i, d, hreach, (rv64Translate_fails_iff (hpaged.frame hreach.frame)).1 ⟨_, _, he⟩⟩
  · rintro ⟨hfast, i, d, hreach, hpass⟩
    obtain ⟨exc, e, he⟩ := (rv64Translate_fails_iff (hpaged.frame hreach.frame)).2 hpass
    obtain rfl := rv64Translate_error he
    exact ⟨e, MemOp.faults_iff.2 ⟨hfast, i, d, hreach, he⟩⟩

end Result

section Alias

local instance sv39Net : NetDevice := NetDevice.silent

theorem superpage_paged : Paged superpageCpu := ⟨by decide, rfl⟩

end Alias

end PgLinux
