import PgLinux.HostPointers
import PgLinux.PageFaults
import PgLinux.WalkSound
/-!
# CodeFetch — where the bytes of an instruction come from

The page tables, `satp` and the mode say where a fetch of a virtual address goes; behind a coherent TLB the fetch goes
there.  Machines that agree on these, and on the bytes, fetch the same word.
-/
namespace PgLinux

open Prog

/-! ## Addresses -/

/-- The physical address of the instruction byte at `va`, if the mode may execute there. -/
def Cpu.codePa (c : Cpu) (va : U64) : Option U64 :=
  if Untranslated c then some va
  else
    match c.path va with
    | .leaf level _ p => if leafAllows c .exec level p then some (leafPa level p va) else none
    | _ => none

/-- The walk of `va` stays in RAM. -/
def Inside (c : Cpu) (va : U64) : Prop := Untranslated c ∨ c.path va ≠ .outside

theorem codePa_untranslated {c : Cpu} (h : Untranslated c) (va : U64) : c.codePa va = some va := if_pos h

theorem codePa_leaf {c : Cpu} {va : U64} {level : Nat} {a p : U64} (hu : ¬ Untranslated c)
    (hpath : c.path va = .leaf level a p) :
    c.codePa va = if leafAllows c .exec level p then some (leafPa level p va) else none := by
  unfold Cpu.codePa
  rw [if_neg hu, hpath]

/-- **Translated code lies behind a leaf that the mode may execute.** -/
theorem codePa_eq_some {c : Cpu} {va pa : U64} (hu : ¬ Untranslated c) : c.codePa va = some pa ↔
    ∃ level a p, c.path va = .leaf level a p ∧ leafAllows c .exec level p = true ∧ leafPa level p va = pa := by
  unfold Cpu.codePa
  rw [if_neg hu]
  cases hpath : c.path va with
  | outside => simp
  | fault => simp
  | leaf level a p => simp

theorem inside_of_code {c : Cpu} {va pa : U64} (h : c.codePa va = some pa) : Inside c va := by
  by_cases hu : Untranslated c
  · exact .inl hu
  · obtain ⟨level, a, p, hpath, -⟩ := (codePa_eq_some hu).1 h
    refine .inr ?_
    rw [hpath]
    exact fun hout => by cases hout

theorem Inside.walk {c : Cpu} {va : U64} (h : Inside c va) (access : AccessType) : ¬ WalksOutside c va access := by
  rintro ⟨hp, hs, -, hout⟩
  rcases h with (h | h) | h
  · exact hp h
  · exact hs h
  · exact h hout

theorem leafPa_add {va : U64} {j : Nat} (hj : j < pageRest va) (level : Nat) (p : U64) :
    leafPa level p (va + BitVec.ofNat 64 j) = leafPa level p va + BitVec.ofNat 64 j := by
  have hrest := pageRest_eq va
  have hpage : vpnOf (va + BitVec.ofNat 64 j) = vpnOf va := (vpnOf_add (by omega)).2 hj
  have hoff : pageOffset (va + BitVec.ofNat 64 j) = pageOffset va + BitVec.ofNat 64 j := by
    refine BitVec.eq_of_toNat_eq ?_
    rw [pageOffset_toNat, BitVec.toNat_add, BitVec.toNat_add, BitVec.toNat_ofNat, pageOffset_toNat]
    omega
  rw [← page_add_offset (leafPa level p (va + BitVec.ofNat 64 j)), ← page_add_offset (leafPa level p va), leafPa_offset,
    leafPa_offset, leafPa_page hpage, hoff, BitVec.add_assoc]

/-- **Code of one page lies together.** -/
theorem codePa_add {c : Cpu} {va pa : U64} {j : Nat} (h : c.codePa va = some pa) (hj : j < pageRest va) :
    c.codePa (va + BitVec.ofNat 64 j) = some (pa + BitVec.ofNat 64 j) := by
  by_cases hu : Untranslated c
  · rw [codePa_untranslated hu] at h ⊢
    cases h
    rfl
  · obtain ⟨level, a, p, hpath, hok, rfl⟩ := (codePa_eq_some hu).1 h
    have hrest := pageRest_eq va
    have hpage : vpnOf (va + BitVec.ofNat 64 j) = vpnOf va := (vpnOf_add (by omega)).2 hj
    exact (codePa_eq_some hu).2 ⟨level, a, p, (path_page hpage).trans hpath, hok, leafPa_add hj level p⟩

/-! ## Translation -/

section Translate

variable [NetDevice] {c : Cpu} {va : U64}

/-- **Behind a coherent TLB a fetch is translated as the page tables say.** -/
theorem TlbCoherent.answer (h : TlbCoherent c) (hin : Inside c va) :
    Prog.answer (rv64Translate va .exec c) = c.codePa va := by
  by_cases hu : Untranslated c
  · rw [codePa_untranslated hu]
    rcases hu with hp | hs
    · rw [rv64Translate_machine hp]
      rfl
    · rw [rv64Translate_bare hs]
      rfl
  obtain ⟨hp, hs⟩ := not_or.1 hu
  have hout := hin.resolve_left hu
  cases hl : tlbLookup c va .exec with
  | some pa =>
    rw [rv64Translate_hit hp hs hl]
    obtain ⟨hc, hpa⟩ := Option.ite_none_right_eq_some.1 hl
    unfold tlbAllows at hc
    simp only [Bool.and_eq_true] at hc
    obtain ⟨hit, ⟨ha, -⟩, hpriv⟩ := hc
    obtain ⟨level, a, p, hpath, hok, hleaf, -⟩ := h.leaf hit ha hpriv
    rw [codePa_leaf hu hpath, if_pos hok, ← hleaf]
    exact hpa.symm
  | none =>
    rw [rv64Translate_miss hp hs hl]
    cases hpath : c.path va with
    | outside => exact absurd hpath hout
    | fault =>
      rw [walk_fault .exec hpath]
      unfold Cpu.codePa
      rw [if_neg hu, hpath]
      rfl
    | leaf level a p =>
      obtain ⟨pte, hleaf⟩ := findLeaf_leaf (rootTable_isTable _) hpath
      rw [codePa_leaf hu hpath, hleaf.walk .exec]
      split
      · rw [walkLeaf_inRam hleaf.addr, hleaf.mark, leafPa_marked]
        rfl
      · rfl

theorem TlbCoherent.translates (h : TlbCoherent c) {pa : U64} (hpa : c.codePa va = some pa) :
    ∃ d, rv64Translate va .exec c = .ok pa d := by
  have hans := h.answer (inside_of_code hpa)
  rw [hpa] at hans
  exact ⟨_, eq_ok_of_answer hans⟩

theorem TlbCoherent.code_of_ok (h : TlbCoherent c) (hin : Inside c va) {pa : U64} {d : Cpu}
    (htr : rv64Translate va .exec c = .ok pa d) : c.codePa va = some pa := by
  rw [← h.answer hin, htr]
  rfl

end Translate

/-! ## What fetches leave alone -/

/-- None of the bytes lies in a leaf entry of the page tables. -/
def Apart (bytes : U64 → Prop) (c : Cpu) : Prop :=
  ∀ va level a p, c.path va = .leaf level a p → ∀ pa, bytes pa → 8 ≤ (pa - a).toNat

/-- What a fetch keeps: the paths, a coherent TLB, the whole TLB in an untranslated mode, and bytes that no walk marks. -/
structure FetchFrame (bytes : U64 → Prop) (c d : Cpu) : Prop where
  frame : AccessFrame c d
  paths : SamePaths c d
  tlb : TlbCoherent c → TlbCoherent d
  untranslated : Untranslated c → d.tlb = c.tlb
  ram : Apart bytes c → ∀ pa, bytes pa → d.bus.mem.ram (pa - ramBase) = c.bus.mem.ram (pa - ramBase)

theorem AccessFrame.untranslated {c d : Cpu} (h : AccessFrame c d) : Untranslated d ↔ Untranslated c := by
  obtain ⟨t, b, g, rfl⟩ := h
  exact Iff.rfl

theorem Apart.congr {bytes : U64 → Prop} {c d : Cpu} (h : Apart bytes c) (hpaths : SamePaths c d) : Apart bytes d :=
  fun va level a p hpath => h va level a p ((hpaths va).symm.trans hpath)

instance (bytes : U64 → Prop) : IsPreorder Cpu (FetchFrame bytes) where
  refl c := ⟨refl_of AccessFrame c, fun _ => rfl, id, fun _ => rfl, fun _ _ _ => rfl⟩
  trans := by
    intro c d e h h'
    refine ⟨trans_of AccessFrame h.frame h'.frame, fun va => (h'.paths va).trans (h.paths va), h'.tlb ∘ h.tlb,
      fun hu => ?_, fun hapart pa hpa => ?_⟩
    · exact (h'.untranslated (h.frame.untranslated.2 hu)).trans (h.untranslated hu)
    · exact (h'.ram (hapart.congr h.paths) pa hpa).trans (h.ram hapart pa hpa)

section Frame

variable {bytes : U64 → Prop} {c d : Cpu} {va : U64}

theorem FetchFrame.inside (h : FetchFrame bytes c d) (hin : Inside c va) : Inside d va := by
  rcases hin with hu | hout
  · exact .inl (h.frame.untranslated.2 hu)
  · refine .inr ?_
    rw [h.paths va]
    exact hout

theorem codePa_congr (hpaths : SamePaths c d) (hu : Untranslated d ↔ Untranslated c)
    (hpriv : ∀ user, privOk d user = privOk c user) : d.codePa va = c.codePa va := by
  have hallows : ∀ level p, leafAllows d .exec level p = leafAllows c .exec level p := by
    intro level p
    unfold leafAllows
    rw [hpriv]
    rfl
  unfold Cpu.codePa
  rw [hpaths va]
  simp only [hu, hallows]

theorem FetchFrame.codePa (h : FetchFrame bytes c d) : d.codePa va = c.codePa va := by
  refine codePa_congr h.paths h.frame.untranslated ?_
  obtain ⟨t, b, g, rfl⟩ := h.frame
  exact fun _ => rfl

theorem fetchFrame_bus {b : Bus} (hmem : b.mem = c.bus.mem) : FetchFrame bytes c { c with bus := b } := by
  have hpaths : SamePaths c { c with bus := b } := by
    intro va
    unfold Cpu.path
    dsimp only
    rw [hmem]
  refine ⟨⟨c.tlb, b, c.dbg, rfl⟩, hpaths, fun h => h.congr rfl hpaths rfl, fun _ => rfl, fun _ pa _ => ?_⟩
  dsimp only
  rw [hmem]

theorem fetchFrame_busLoad (pa : U64) (n : Nat) (c : Cpu) : FetchFrame bytes c (final (busLoadM pa n c)) :=
  fetchFrame_bus (busLoad_mem c.ram_size c.bus pa n)

variable [NetDevice]

/-- **A translation keeps all this**: its walk marks a leaf entry, and no other byte. -/
theorem fetchFrame_translate (hin : Inside c va) : FetchFrame bytes c (final (rv64Translate va .exec c)) := by
  have hw := hin.walk .exec
  rcases translate_cases hw with h | ⟨level, a, p, pte, hpath, hleaf, h⟩
  · rw [h]
    exact refl_of (FetchFrame bytes) c
  have htlb := fun hc : TlbCoherent c => hc.translate hw
  refine ⟨rv64Translate_frame va .exec c, ?_, htlb, fun hu => ?_, fun hapart pa hpa => ?_⟩
  · rw [h]
    exact path_useLeaf hleaf .exec
  · rcases hu with hp | hs
    · rw [rv64Translate_machine hp]
      rfl
    · rw [rv64Translate_bare hs]
      rfl
  · rw [h]
    refine useLeaf_others c va .exec level a pte ?_
    have hsub : pa - ramBase - (a - ramBase) = pa - a := by bv_omega
    rw [hsub]
    exact hapart va level a p hpath pa hpa

end Frame

/-! ## A fetch -/

/-- The value of a load that crosses a page, from its bytes. -/
def joinBytes (w : Nat → U8) : Nat → Nat → U64 → U64
  | 0, _, result => result
  | n + 1, i, result => joinBytes w n (i + 1) (result ||| ((w i).setWidth 64 &&& 0xFF) <<< (i * 8))

/-- The value of a fetch at `va`, from its bytes. -/
def fetched (w : Nat → U8) (va : U64) : U64 :=
  if crossesPage va 4 then joinBytes w 4 0 0 else Mem.read (fun a => w a.toNat) 0 4

/-- The instruction at `va` lies at `pa`, byte by byte, and its bytes are `w`; no walk marks them. -/
structure Serves (va : U64) (pa : Nat → U64) (w : Nat → U8) (c : Cpu) : Prop where
  tlb : TlbCoherent c
  slow : Untranslated c → loadFast c va 4 .exec = none
  code : ∀ j < 4, c.codePa (va + BitVec.ofNat 64 j) = some (pa j)
  inRam : ∀ j < 4, inRam c.ram_size (pa j) = true
  ram : ∀ j < 4, c.bus.mem.ram (pa j - ramBase) = w j
  apart : Apart (fun q => ∃ j < 4, q = pa j) c

/-- In an untranslated mode the fast path goes where it went. -/
theorem FetchFrame.fast {bytes : U64 → Prop} {c d : Cpu} (h : FetchFrame bytes c d) (hu : Untranslated c) (va : U64)
    (size : Nat) (access : AccessType) : loadFast d va size access = loadFast c va size access := by
  have htlb := h.untranslated hu
  obtain ⟨t, b, g, rfl⟩ := h.frame
  cases htlb
  rfl

theorem Serves.frame {va : U64} {pa : Nat → U64} {w : Nat → U8} {c d : Cpu} (h : Serves va pa w c)
    (hf : FetchFrame (fun q => ∃ j < 4, q = pa j) c d) : Serves va pa w d where
  tlb := hf.tlb h.tlb
  slow hu := by
    have hu' := hf.frame.untranslated.1 hu
    exact (hf.fast hu' va 4 .exec).trans (h.slow hu')
  code j hj := hf.codePa.trans (h.code j hj)
  inRam j hj := by
    obtain ⟨t, b, g, rfl⟩ := hf.frame
    exact h.inRam j hj
  ram j hj := (hf.ram h.apart _ ⟨j, hj, rfl⟩).trans (h.ram j hj)
  apart := h.apart.congr hf.paths

theorem TlbCoherent.fast {c : Cpu} {va p : U64} {size : Nat} (h : TlbCoherent c) (hu : ¬ Untranslated c)
    (hfast : loadFast c va size .exec = some p) : c.codePa va = some (ramBase + p) := by
  obtain ⟨hc, hp⟩ := Option.ite_none_right_eq_some.1 hfast
  simp only [Bool.and_eq_true] at hc
  obtain ⟨⟨⟨hit, ha⟩, hpriv⟩, -⟩ := hc
  obtain ⟨b, hb, rfl⟩ := Option.map_eq_some_iff.1 hp
  have hexec : accessOk c (c.tlbEntry va).perm .exec = true := ha
  obtain ⟨level, a, q, hpath, hok, -, hhost⟩ := h.leaf hit hexec hpriv
  exact (codePa_eq_some hu).2 ⟨level, a, q, hpath, hok, (hhost b hb).symm⟩

theorem loadFast_page {c : Cpu} {va p : U64} {size : Nat} {access : AccessType}
    (h : loadFast c va size access = some p) : crossesPage va size = false := by
  obtain ⟨hc, -⟩ := Option.ite_none_right_eq_some.1 h
  simp only [Bool.and_eq_true] at hc
  simpa using hc.2

section Fetch

variable [NetDevice] {bytes : U64 → Prop} {c : Cpu} {va : U64} {pa : Nat → U64} {w : Nat → U8}

theorem fetchFrame_loadBytes : ∀ (n i : Nat) (r : U64) (c : Cpu),
    (∀ j, i ≤ j → j < i + n → Inside c (va + BitVec.ofNat 64 j)) → FetchFrame bytes c (final (loadBytes va .exec n i r c))
  | 0, _, _, c, _ => refl_of (FetchFrame bytes) c
  | n + 1, i, r, c, hin => by
    have htr : FetchFrame bytes c (final (rv64Translate (va + BitVec.ofNat 64 i) .exec c)) :=
      fetchFrame_translate (hin i (Nat.le_refl i) (by omega))
    unfold loadBytes
    refine final_bind htr fun q d _ hd => ?_
    have hbus : FetchFrame bytes d (final (busLoadM q 1 d)) := fetchFrame_busLoad q 1 d
    have hkeep := trans_of (FetchFrame bytes) hd hbus
    exact trans_of (FetchFrame bytes) hbus
      (fetchFrame_loadBytes n (i + 1) _ _ fun j hij hj => hkeep.inside (hin j (by omega) (by omega)))

/-- **A fetch keeps all this.** -/
theorem fetchFrame_fetch (hin : ∀ j < 4, Inside c (va + BitVec.ofNat 64 j)) :
    FetchFrame bytes c (final (rv64CpuLoad va 4 .exec c)) := by
  cases hfast : loadFast c va 4 .exec with
  | some p =>
    rw [rv64CpuLoad_hit hfast]
    exact refl_of (FetchFrame bytes) c
  | none =>
    rw [rv64CpuLoad_miss hfast]
    split
    · exact fetchFrame_loadBytes 4 0 0 c fun j _ hj => hin j (by omega)
    · have htr : FetchFrame bytes c (final (rv64Translate va .exec c)) := by
        refine fetchFrame_translate ?_
        simpa using hin 0 (by decide)
      exact final_bind htr fun q d _ _ => fetchFrame_busLoad q 4 d

theorem loadBytes_code : ∀ {n i : Nat} {r v : U64} {c d : Cpu}, TlbCoherent c →
    (∀ j, i ≤ j → j < i + n → Inside c (va + BitVec.ofNat 64 j)) → loadBytes va .exec n i r c = .ok v d →
      ∀ j, i ≤ j → j < i + n → ∃ q, c.codePa (va + BitVec.ofNat 64 j) = some q
  | 0, _, _, _, _, _, _, _, _, _, _, _ => by omega
  | n + 1, i, r, v, c, d, htlb, hin, hok, j, hij, hj => by
    have hfirst := hin i (Nat.le_refl i) (by omega)
    unfold loadBytes at hok
    obtain ⟨q, e, htr, hok⟩ := bind_eq_ok.1 hok
    have hframe : FetchFrame (fun _ => False) c (final (busLoadM q 1 e)) := by
      have ht : FetchFrame (fun _ => False) c (final (rv64Translate (va + BitVec.ofNat 64 i) .exec c)) :=
        fetchFrame_translate hfirst
      rw [htr] at ht
      exact trans_of (FetchFrame fun _ => False) ht (fetchFrame_busLoad q 1 e)
    by_cases heq : j = i
    · subst heq
      exact ⟨q, htlb.code_of_ok hfirst htr⟩
    · have hrest : ∀ k, i + 1 ≤ k → k < i + 1 + n → Inside (final (busLoadM q 1 e)) (va + BitVec.ofNat 64 k) :=
        fun k hik hk => hframe.inside (hin k (by omega) (by omega))
      obtain ⟨q', hq⟩ := loadBytes_code (hframe.tlb htlb) hrest hok j (by omega) (by omega)
      exact ⟨q', hframe.codePa.symm.trans hq⟩

/-- **A fetch that succeeds has found its four bytes.** -/
theorem fetch_code {v : U64} {d : Cpu} (htlb : TlbCoherent c) (hslow : Untranslated c → loadFast c va 4 .exec = none)
    (hin : ∀ j < 4, Inside c (va + BitVec.ofNat 64 j)) (hok : rv64CpuLoad va 4 .exec c = .ok v d) {j : Nat} (hj : j < 4) :
    ∃ q, c.codePa (va + BitVec.ofNat 64 j) = some q := by
  have hpage : crossesPage va 4 = false → ∀ {q : U64}, c.codePa va = some q →
      ∃ q, c.codePa (va + BitVec.ofNat 64 j) = some q := by
    intro hcross q hq
    have hrest : 4 ≤ pageRest va := by
      by_contra hlt
      rw [crossesPage_iff.2 (by omega)] at hcross
      cases hcross
    exact ⟨_, codePa_add hq (by omega)⟩
  cases hfast : loadFast c va 4 .exec with
  | some p =>
    have hu : ¬ Untranslated c := by
      intro hu
      rw [hslow hu] at hfast
      cases hfast
    exact hpage (loadFast_page hfast) (htlb.fast hu hfast)
  | none =>
    rw [rv64CpuLoad_miss hfast] at hok
    cases hcross : crossesPage va 4 with
    | true =>
      rw [if_pos hcross] at hok
      exact loadBytes_code htlb (fun j _ hj => hin j (by omega)) hok j (Nat.zero_le j) (by omega)
    | false =>
      rw [if_neg (by rw [hcross]; decide)] at hok
      obtain ⟨q, e, htr, -⟩ := bind_eq_ok.1 hok
      have hfirst : Inside c va := by simpa using hin 0 (by decide)
      exact hpage hcross (htlb.code_of_ok hfirst htr)

omit [NetDevice] in
/-- Byte `j` over the bus, once it is translated. -/
theorem Serves.byte (h : Serves va pa w c) {j : Nat} (hj : j < 4) :
    busLoadM (pa j) 1 c = .ok ((w j).setWidth 64) (final (busLoadM (pa j) 1 c)) := by
  have hread : c.bus.mem.ram.read (pa j - ramBase) 1 = (w j).setWidth 64 := by
    simp [Mem.read, h.ram j hj]
  refine eq_ok_of_answer ?_
  show some (busLoad c.ram_size c.bus (pa j) 1).1 = _
  unfold busLoad
  rw [if_pos (h.inRam j hj), hread]

theorem Serves.loadBytes : ∀ {n i : Nat} {r : U64} {c : Cpu}, Serves va pa w c → i + n ≤ 4 →
    ∃ d, PgLinux.loadBytes va .exec n i r c = .ok (joinBytes w n i r) d
  | 0, _, _, c, _, _ => ⟨c, rfl⟩
  | n + 1, i, r, c, h, hn => by
    have hi : i < 4 := by omega
    obtain ⟨e, htr⟩ := h.tlb.translates (h.code i hi)
    have hframe : FetchFrame (fun q => ∃ j < 4, q = pa j) c (final (rv64Translate (va + BitVec.ofNat 64 i) .exec c)) :=
      fetchFrame_translate (inside_of_code (h.code i hi))
    rw [htr] at hframe
    have he : Serves va pa w e := h.frame hframe
    have hnext : Serves va pa w (final (busLoadM (pa i) 1 e)) := he.frame (fetchFrame_busLoad (pa i) 1 e)
    obtain ⟨d, hd⟩ : ∃ d, PgLinux.loadBytes va .exec n (i + 1) (r ||| ((w i).setWidth 64 &&& 0xFF) <<< (i * 8))
        (final (busLoadM (pa i) 1 e)) = .ok (joinBytes w (n + 1) i r) d := hnext.loadBytes (by omega)
    refine ⟨d, ?_⟩
    unfold PgLinux.loadBytes
    rw [bind_of_ok htr, bind_of_ok (he.byte hi)]
    exact hd

/-- **The bytes decide the word.** -/
theorem Serves.fetch (h : Serves va pa w c) : ∃ d, rv64CpuLoad va 4 .exec c = .ok (fetched w va) d := by
  have hread : ∀ {d : Cpu}, Serves va pa w d → crossesPage va 4 = false →
      d.bus.mem.ram.read (pa 0 - ramBase) 4 = fetched w va := by
    intro d hd hcross
    unfold fetched
    rw [if_neg (by rw [hcross]; decide)]
    have hrest : 4 ≤ pageRest va := by
      by_contra hlt
      rw [crossesPage_iff.2 (by omega)] at hcross
      cases hcross
    refine Mem.read_shift 4 _ _ fun j hj => ?_
    have hfirst : d.codePa va = some (pa 0) := by simpa using hd.code 0 (by decide)
    have hat : pa j = pa 0 + BitVec.ofNat 64 j :=
      Option.some.inj ((hd.code j hj).symm.trans (codePa_add hfirst (by omega)))
    have hsub : pa 0 - ramBase + BitVec.ofNat 64 j = pa j - ramBase := by
      rw [hat]
      bv_omega
    have hj' : (0 + BitVec.ofNat 64 j : U64).toNat = j := by
      rw [BitVec.toNat_add, BitVec.toNat_ofNat, show (0 : U64).toNat = 0 from rfl]
      omega
    rw [hsub, hd.ram j hj, hj']
  cases hfast : loadFast c va 4 .exec with
  | some p =>
    have hu : ¬ Untranslated c := by
      intro hu
      rw [h.slow hu] at hfast
      cases hfast
    have hcode : some (pa 0) = some (ramBase + p) := by
      rw [← h.tlb.fast hu hfast, ← h.code 0 (by decide), BitVec.add_zero]
    have hp : pa 0 - ramBase = p := by
      rw [Option.some.inj hcode]
      bv_omega
    refine ⟨c, ?_⟩
    rw [rv64CpuLoad_hit hfast, ← hread h (loadFast_page hfast), hp]
  | none =>
    rw [rv64CpuLoad_miss hfast]
    cases hcross : crossesPage va 4 with
    | true =>
      rw [if_pos rfl]
      unfold fetched
      rw [if_pos hcross]
      exact h.loadBytes (Nat.le_refl 4)
    | false =>
      rw [if_neg (by decide)]
      have hfirst : c.codePa va = some (pa 0) := by simpa using h.code 0 (by decide)
      obtain ⟨e, htr⟩ := h.tlb.translates hfirst
      have hframe : FetchFrame (fun q => ∃ j < 4, q = pa j) c (final (rv64Translate va .exec c)) :=
        fetchFrame_translate (inside_of_code hfirst)
      rw [htr] at hframe
      have he : Serves va pa w e := h.frame hframe
      have hload : answer (busLoadM (pa 0) 4 e) = some (fetched w va) := by
        show some (busLoad e.ram_size e.bus (pa 0) 4).1 = _
        unfold busLoad
        rw [if_pos (he.inRam 0 (by decide)), hread he hcross]
      exact ⟨_, (bind_of_ok htr).trans (eq_ok_of_answer hload)⟩

end Fetch

end PgLinux
