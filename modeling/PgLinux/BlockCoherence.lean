import PgLinux.CodeFetch
/-!
# BlockCoherence — cached blocks against the fetch of their instructions

The cache is looked up by virtual pc.  Writes of `satp`, SFENCE.VMA and FENCE.I clear it; traps and returns do not.  Two
ghosts stand beside the machine: whether its page tables were edited since the last SFENCE.VMA, and for each slot the
machine that compiled its block, as it was before the compilation.
-/
namespace PgLinux

open Prog

/-! ## Compilation -/

instance (c : Cpu) (va : U64) : Decidable (Inside c va) := inferInstanceAs (Decidable (_ ∨ _))

section Compile

variable [NetDevice]

/-- Some fetch of the compilation walks a path that leaves RAM. -/
def compileStrays (disabled : BitVec 128) : Nat → Compile → Cpu → Bool
  | 0, _, _ => false
  | n + 1, k, c =>
    decide (∃ j < 4, ¬ Inside c (k.pc + BitVec.ofNat 64 j)) ||
      match rv64CpuLoad k.pc 4 .exec c with
      | .error _ _ => false
      | .ok val c =>
        let word : U32 := val.setWidth 32
        let e := emitWord disabled word k.pc
        e.supported && !(k.take word e).2 && compileStrays disabled n (k.take word e).1 c

/-- `i` was fetched by a machine that fetches lead to from `c`. -/
def FetchedFrom (c : Cpu) (i : JitSrc) : Prop :=
  ∃ d v e, (∀ bytes, FetchFrame bytes c d) ∧ (∀ j < 4, Inside d (i.va + BitVec.ofNat 64 j)) ∧
    rv64CpuLoad i.va 4 .exec d = .ok v e ∧ v.setWidth 32 = i.word

theorem FetchedFrom.head {c d : Cpu} {i : JitSrc} (h : ∀ bytes, FetchFrame bytes c d) (hi : FetchedFrom d i) :
    FetchedFrom c i := by
  obtain ⟨d', v, e, hd, hrest⟩ := hi
  exact ⟨d', v, e, fun bytes => trans_of (FetchFrame bytes) (h bytes) (hd bytes), hrest⟩

/-- **A compilation that stays in RAM** keeps what fetches keep, and has fetched every instruction it took. -/
theorem compileLoop_fetches (disabled : BitVec 128) : ∀ {n : Nat} {k : Compile} {c : Cpu},
    compileStrays disabled n k c = false → (∀ bytes, FetchFrame bytes c (compileLoop disabled n k c).2) ∧
      ∀ i ∈ (compileLoop disabled n k c).1.src, i ∈ k.src ∨ FetchedFrom c i
  | 0, _, c, _ => ⟨fun bytes => refl_of (FetchFrame bytes) c, fun _ => .inl⟩
  | n + 1, k, c, h => by
    unfold compileStrays at h
    rw [Bool.or_eq_false_iff, decide_eq_false_iff_not] at h
    obtain ⟨hin, hrest⟩ := h
    have hin : ∀ j < 4, Inside c (k.pc + BitVec.ofNat 64 j) := fun j hj =>
      not_not.1 fun hout => hin ⟨j, hj, hout⟩
    have hframe : ∀ bytes, FetchFrame bytes c (final (rv64CpuLoad k.pc 4 .exec c)) := fun _ => fetchFrame_fetch hin
    unfold compileLoop
    cases hload : rv64CpuLoad k.pc 4 .exec c with
    | error exc d =>
      rw [hload] at hframe
      exact ⟨hframe, fun _ => .inl⟩
    | ok v d =>
      rw [hload] at hframe hrest
      dsimp only at hrest ⊢
      generalize hword : (v.setWidth 32 : U32) = word at hrest ⊢
      have hfirst : FetchedFrom c ⟨k.pc, word⟩ := ⟨c, v, d, fun bytes => refl_of (FetchFrame bytes) c, hin, hload, hword⟩
      have htake : ∀ i ∈ (k.take word (emitWord disabled word k.pc)).1.src, i ∈ k.src ∨ FetchedFrom c i := by
        intro i hi
        rcases List.mem_append.1 hi with hi | hi
        · exact .inl hi
        · rw [List.mem_singleton.1 hi]
          exact .inr hfirst
      split
      · exact ⟨hframe, fun _ => .inl⟩
      next hsup =>
        split
        · exact ⟨hframe, htake⟩
        next hend =>
          have hsup : (emitWord disabled word k.pc).supported = true := by simpa using hsup
          rw [hsup, eq_false_of_ne_true hend] at hrest
          obtain ⟨hrun, hsrc⟩ := compileLoop_fetches disabled hrest
          refine ⟨fun bytes => trans_of (FetchFrame bytes) (hframe bytes) (hrun bytes), fun i hi => ?_⟩
          rcases hsrc i hi with hi | hi
          · exact htake i hi
          · exact .inr (hi.head hframe)

end Compile

/-! ## Runs -/

/-- A machine, whether its page tables were edited since the last flush of the TLB, and the compiler of each slot. -/
structure CodeState where
  cpu : Cpu
  edited : Prop
  compiler : BitVec 16 → Cpu

/-- An empty cache. -/
def NoBlocks (c : Cpu) : Prop := ∀ j, c.jit = some j → ∀ i, (j.cache i).valid = false

theorem noBlocks_flush (c : Cpu) : NoBlocks (jitFlush c) := by
  intro j hj i
  unfold jitFlush at hj
  obtain ⟨j', -, rfl⟩ := Option.map_eq_some_iff.1 hj
  rfl

theorem samePaths_of_ram {c c' : Cpu} (hram : c'.bus.mem.ram = c.bus.mem.ram) (hsatp : c'.csr.satp = c.csr.satp)
    (hsize : c'.ram_size = c.ram_size) : SamePaths c c' := by
  intro va
  unfold Cpu.path
  rw [hram, hsatp, hsize]

section Steps

variable [NetDevice]

/-- What the moves of the machine are made of, as far as translation and the block cache go. -/
inductive CodeStep : CodeState → CodeState → Prop
  | translate (c : Cpu) (e : Prop) (k : BitVec 16 → Cpu) (va : U64) (access : AccessType) :
    CodeStep ⟨c, e, k⟩ ⟨final (rv64Translate va access c), e ∨ WalksOutside c va access, k⟩
  | bus (c : Cpu) (e : Prop) (k : BitVec 16 → Cpu) (b : Bus) :
    CodeStep ⟨c, e, k⟩ ⟨{ c with bus := b }, e ∨ ¬ SamePaths c { c with bus := b }, k⟩
  | tlbFlush (c : Cpu) (e : Prop) (k : BitVec 16 → Cpu) (r : Csr) :
    CodeStep ⟨c, e, k⟩ ⟨rv64TlbFlush { c with csr := r }, False, k⟩
  | jitFlush (c : Cpu) (e : Prop) (k : BitVec 16 → Cpu) : CodeStep ⟨c, e, k⟩ ⟨jitFlush c, e, k⟩
  | compile (c : Cpu) (e : Prop) (k : BitVec 16 → Cpu) (j : JitState) (hj : c.jit = some j) :
    CodeStep ⟨c, e, k⟩ ⟨(jitCompileBlock j c.pc c).2,
      e ∨ compileStrays j.disabled_ops (maxInsns j) (.start c.pc) c = true, setAt k (cacheIndex c.pc) c⟩
  | other (c c' : Cpu) (e : Prop) (k : BitVec 16 → Cpu) (htlb : c'.tlb = c.tlb) (hram : c'.bus.mem.ram = c.bus.mem.ram)
    (hsatp : c'.csr.satp = c.csr.satp) (hsize : c'.ram_size = c.ram_size) (hjit : c'.jit = c.jit) :
    CodeStep ⟨c, e, k⟩ ⟨c', e, k⟩

abbrev CodeRun : CodeState → CodeState → Prop := Relation.ReflTransGen CodeStep

/-- `b` is the block that `k` compiled, and the page tables are those it compiled it under. -/
structure CompiledBy (k c : Cpu) (b : JitBlock) : Prop where
  block : ∃ j, (jitCompileBlock j k.pc k).1 = b ∧ compileStrays j.disabled_ops (maxInsns j) (.start k.pc) k = false
  tlb : TlbCoherent k
  paths : SamePaths k c
  size : c.ram_size = k.ram_size

/-- The invariant of a run. -/
structure CodeOk (c : Cpu) (k : BitVec 16 → Cpu) : Prop where
  tlb : TlbCoherent c
  cache : ∀ j, c.jit = some j → ∀ i, (j.cache i).valid = true → CompiledBy (k i) c (j.cache i)

theorem CompiledBy.kept {k c c' : Cpu} {b : JitBlock} (h : CompiledBy k c b) (hpaths : SamePaths c c')
    (hsize : c'.ram_size = c.ram_size) : CompiledBy k c' b :=
  ⟨h.block, h.tlb, fun va => (hpaths va).trans (h.paths va), hsize.trans h.size⟩

theorem CodeOk.kept {c c' : Cpu} {k : BitVec 16 → Cpu} (h : CodeOk c k) (htlb : TlbCoherent c')
    (hpaths : SamePaths c c') (hsize : c'.ram_size = c.ram_size) (hjit : c'.jit = c.jit) : CodeOk c' k := by
  refine ⟨htlb, fun j hj i hi => ?_⟩
  rw [hjit] at hj
  exact (h.cache j hj i hi).kept hpaths hsize

theorem codeOk_noBlocks {c : Cpu} (h : NoBlocks c) (htlb : TlbCoherent c) (k : BitVec 16 → Cpu) : CodeOk c k := by
  refine ⟨htlb, fun j hj i hi => ?_⟩
  rw [h j hj i] at hi
  cases hi

theorem samePaths_translate {c : Cpu} {va : U64} {access : AccessType} (hin : ¬ WalksOutside c va access) :
    SamePaths c (final (rv64Translate va access c)) := by
  rcases translate_cases hin with h | ⟨level, a, p, pte, -, hleaf, h⟩ <;> rw [h]
  · exact fun _ => rfl
  · exact path_useLeaf hleaf access

/-- **A compilation puts its block into the slot of the pc.** -/
theorem CodeOk.compile {c : Cpu} {k : BitVec 16 → Cpu} (h : CodeOk c k) {j : JitState} (hj : c.jit = some j)
    (hin : compileStrays j.disabled_ops (maxInsns j) (.start c.pc) c = false) :
    CodeOk (jitCompileBlock j c.pc c).2 (setAt k (cacheIndex c.pc) c) := by
  obtain ⟨hframe, -⟩ := compileLoop_fetches j.disabled_ops hin
  generalize hd : (compileLoop j.disabled_ops (maxInsns j) (.start c.pc) c).2 = d at hframe
  have hf := hframe fun _ => False
  have hstored : (jitCompileBlock j c.pc c).2 = storeBlock (jitCompileBlock j c.pc c).1 d := by
    rw [← hd]
    rfl
  have hjit : d.jit = c.jit ∧ d.ram_size = c.ram_size := by
    obtain ⟨t, b, g, rfl⟩ := hf.frame
    exact ⟨rfl, rfl⟩
  rw [hstored]
  refine ⟨(hf.tlb h.tlb).congr rfl (fun _ => rfl) rfl, fun j' hj' i hi => ?_⟩
  have hj' : some { j with cache := setAt j.cache (cacheIndex c.pc) (jitCompileBlock j c.pc c).1 } = some j' := by
    rw [← hj']
    show _ = d.jit.map _
    rw [hjit.1, hj]
    rfl
  cases hj'
  dsimp only at hi ⊢
  by_cases heq : i = cacheIndex c.pc
  · subst heq
    rw [setAt_self, setAt_self]
    exact ⟨⟨j, rfl, hin⟩, h.tlb, hf.paths, hjit.2⟩
  · rw [setAt_ne _ _ heq] at hi ⊢
    rw [setAt_ne _ _ heq]
    exact (h.cache j hj i hi).kept hf.paths hjit.2

/-- **Every step keeps the invariant while nothing is edited.** -/
theorem CodeStep.ok {s t : CodeState} (hs : CodeStep s t) (h : ¬ s.edited → CodeOk s.cpu s.compiler) (he : ¬ t.edited) :
    CodeOk t.cpu t.compiler := by
  cases hs with
  | translate c e k va access =>
    obtain ⟨he, hin⟩ := not_or.1 he
    have hok := h he
    obtain ⟨t, b, d, hframe⟩ := rv64Translate_frame va access c
    exact hok.kept (hok.tlb.translate hin) (samePaths_translate hin) (by rw [hframe]) (by rw [hframe])
  | bus c e k b =>
    obtain ⟨he, hsame⟩ := not_or.1 he
    have hok := h he
    exact hok.kept (hok.tlb.congr rfl (not_not.1 hsame) rfl) (not_not.1 hsame) rfl rfl
  | tlbFlush c e k r => exact codeOk_noBlocks (noBlocks_flush _) (tlbCoherent_zero rfl) k
  | jitFlush c e k => exact codeOk_noBlocks (noBlocks_flush c) ((h he).tlb.congr rfl (fun _ => rfl) rfl) k
  | compile c e k j hj =>
    obtain ⟨he, hin⟩ := not_or.1 he
    exact (h he).compile hj (eq_false_of_ne_true hin)
  | other c c' e k htlb hram hsatp hsize hjit =>
    have hpaths := samePaths_of_ram hram hsatp hsize
    exact (h he).kept ((h he).tlb.congr htlb hpaths hsize) hpaths hsize hjit

theorem CodeRun.ok {s t : CodeState} (hrun : CodeRun s t) (h : ¬ s.edited → CodeOk s.cpu s.compiler) (he : ¬ t.edited) :
    CodeOk t.cpu t.compiler := by
  induction hrun with
  | refl => exact h he
  | tail _ hstep ih => exact hstep.ok ih he

/-! ## The moves of the machine -/

/-- Some tracking leads from one machine to the other. -/
def CanTrackCode (c c' : Cpu) : Prop := ∀ e k, ∃ e' k', CodeRun ⟨c, e, k⟩ ⟨c', e', k'⟩

instance : IsPreorder Cpu CanTrackCode where
  refl c e k := ⟨e, k, .refl⟩
  trans := by
    intro c c' c'' h h' e k
    obtain ⟨e', k', hr⟩ := h e k
    obtain ⟨e'', k'', hr'⟩ := h' e' k'
    exact ⟨e'', k'', hr.trans hr'⟩

theorem canTrackCode_other {c c' : Cpu} (htlb : c'.tlb = c.tlb) (hram : c'.bus.mem.ram = c.bus.mem.ram)
    (hsatp : c'.csr.satp = c.csr.satp) (hsize : c'.ram_size = c.ram_size) (hjit : c'.jit = c.jit) : CanTrackCode c c' :=
  fun e k => ⟨e, k, .single (.other c c' e k htlb hram hsatp hsize hjit)⟩

theorem canTrackCode_bus (c : Cpu) (b : Bus) : CanTrackCode c { c with bus := b } :=
  fun e k => ⟨_, k, .single (.bus c e k b)⟩

theorem canTrackCode_translate (va : U64) (access : AccessType) : Leads CanTrackCode (rv64Translate va access) :=
  fun c e k => ⟨_, k, .single (.translate c e k va access)⟩

theorem canTrackCode_csrWrite (c : Cpu) (csr : BitVec 12) (val : U64) : CanTrackCode c (csrWrite c csr val) := by
  by_cases hsatp : csr = 0x180
  · unfold csrWrite
    rw [if_pos hsatp]
    exact fun e k => ⟨False, k, .single (.tlbFlush c e k _)⟩
  · obtain ⟨r, f, hr, hw⟩ := csrWrite_other hsatp c val
    rw [hw]
    exact canTrackCode_other rfl rfl hr rfl rfl

theorem canTrackCode_rules : StepRules CanTrackCode where
  core h := canTrackCode_other h.tlb (by rw [h.bus]) h.satp h.ram_size h.jit
  load va size access := leads_rv64CpuLoad (.of_any canTrackCode_bus) canTrackCode_translate va size access
  store va size val :=
    leads_cpuStore (.of_any canTrackCode_bus) (fun _ _ => canTrackCode_other rfl rfl rfl rfl rfl) canTrackCode_translate
      va size val
  trap c cause tval := by
    obtain ⟨r, p, pc, d, h⟩ := trap_frame c cause tval
    refine canTrackCode_other ?_ ?_ (trap_satp c cause tval) ?_ ?_ <;> rw [h]
  csrWrite := canTrackCode_csrWrite
  tlbFlush c e k := ⟨False, k, .single (.tlbFlush c e k c.csr)⟩
  jitFlush c e k := ⟨e, k, .single (.jitFlush c e k)⟩

theorem canTrackCode_lookup {c : Cpu} (j : JitState) (hj : c.jit = some j) : CanTrackCode c (lookupBlock j c).2 := by
  unfold lookupBlock
  dsimp only
  split
  · exact fun e k => ⟨_, _, .single (.compile c e k j hj)⟩
  · exact refl_of CanTrackCode c

variable [HostFp]

theorem canTrackCode_jitExec (undef : U64) (c : Cpu) : CanTrackCode c (jitExec undef c).2 :=
  BlockRules.jitExec canTrackCode_rules.toBlock (fun _ _ => canTrackCode_other rfl rfl rfl rfl rfl)
    canTrackCode_lookup undef

/-- A move of the machine, tracked. -/
def CodeMove (s t : CodeState) : Prop := MachineStep s.cpu t.cpu ∧ CodeRun s t

/-- **Every move of the machine can be tracked.** -/
theorem codeMove_total {s : CodeState} {c : Cpu} (h : MachineStep s.cpu c) : ∃ e k, CodeMove s ⟨c, e, k⟩ := by
  have htrack : CanTrackCode s.cpu c := by
    rcases canTrackCode_rules.machineStep_jit canTrackCode_bus canTrackCode_jitExec h with hr | ⟨m, hm, hret | hret⟩
    · exact hr
    · have hmret : CanTrackCode m (mret m) := canTrackCode_other rfl rfl rfl rfl rfl
      exact trans_of CanTrackCode hm (trans_of CanTrackCode hmret (canTrackCode_rules.core hret))
    · have hsret : CanTrackCode m (sret m) := by
        obtain ⟨r, p, d, h, hr⟩ := sret_frame m
        rw [h]
        exact canTrackCode_other rfl rfl hr rfl rfl
      exact trans_of CanTrackCode hm (trans_of CanTrackCode hsret (canTrackCode_rules.core hret))
  obtain ⟨e, k, hr⟩ := htrack s.edited s.compiler
  exact ⟨e, k, h, hr⟩

theorem codeMoves_run {s t : CodeState} (h : Relation.ReflTransGen CodeMove s t) : CodeRun s t := by
  induction h with
  | refl => exact .refl
  | tail _ hmove ih => exact ih.trans hmove.2

end Steps

/-! ## Hits of the cache -/

/-- `jit_exec` finds `b` in the cache, and runs it. -/
structure HitsBlock (c : Cpu) (b : JitBlock) : Prop where
  cached : ∃ j, c.jit = some j ∧ j.enabled = true ∧ j.cache (cacheIndex c.pc) = b
  valid : b.valid = true
  pc : b.guest_pc = c.pc
  code : b.host_code.isSome = true

/-- The fetch of every instruction of the block succeeds, with the word it was compiled from. -/
def FetchesBlock [NetDevice] (c : Cpu) (b : JitBlock) : Prop := ∀ i ∈ b.src, ∃ d, fetchInsn i.va c = .ok i.word d

/-- `k` had a byte of an instruction of the block at `pa`. -/
def CodeByte (k : Cpu) (b : JitBlock) (pa : U64) : Prop :=
  ∃ i ∈ b.src, ∃ j < 4, k.codePa (i.va + BitVec.ofNat 64 j) = some pa

/-- The bytes of the block are those of its compilation. -/
def Unmodified (k c : Cpu) (b : JitBlock) : Prop :=
  ∀ pa, CodeByte k b pa → c.bus.mem.ram (pa - ramBase) = k.bus.mem.ram (pa - ramBase)

/-- The block lies in RAM, and no byte of it in a leaf entry of the page tables. -/
structure PlainCode (k : Cpu) (b : JitBlock) : Prop where
  inRam : ∀ pa, CodeByte k b pa → inRam k.ram_size pa = true
  apart : Apart (CodeByte k b) k

/-- The mode may fetch the block as its compiler did: it translates or not as the compiler did; where it translates, the
U bit of each page allows it; where it does not, no entry of the TLB catches a fetch, now or then. -/
structure ModeAllows (k c : Cpu) (b : JitBlock) : Prop where
  untranslated : Untranslated c ↔ Untranslated k
  user : ¬ Untranslated c → ∀ i ∈ b.src, ∀ j < 4, ∀ level a p, c.path (i.va + BitVec.ofNat 64 j) = .leaf level a p →
    privOk c (pteU p) = true
  slow : Untranslated c → ∀ i ∈ b.src, loadFast k i.va 4 .exec = none ∧ loadFast c i.va 4 .exec = none

theorem ModeAllows.code {k c : Cpu} {b : JitBlock} (h : ModeAllows k c b) (hpaths : SamePaths k c) {i : JitSrc} (hi : i ∈ b.src)
    {j : Nat} (hj : j < 4) {pa : U64} (hpa : k.codePa (i.va + BitVec.ofNat 64 j) = some pa) :
    c.codePa (i.va + BitVec.ofNat 64 j) = some pa := by
  by_cases hu : Untranslated k
  · rw [codePa_untranslated hu] at hpa
    rw [codePa_untranslated (h.untranslated.2 hu), hpa]
  · have hu' : ¬ Untranslated c := fun hc => hu (h.untranslated.1 hc)
    obtain ⟨level, a, p, hpath, hok, hleaf⟩ := (codePa_eq_some hu).1 hpa
    have hpath' := (hpaths _).trans hpath
    refine (codePa_eq_some hu').2 ⟨level, a, p, hpath', ?_, hleaf⟩
    unfold leafAllows at hok ⊢
    rw [Bool.and_eq_true, Bool.and_eq_true] at hok ⊢
    exact ⟨⟨h.user hu' i hi j hj level a p hpath', hok.1.2⟩, hok.2⟩

section Hits

variable [NetDevice]

/-- **A block fetches as it was compiled** where the page tables and its bytes stand as then, in a mode that may. -/
theorem CompiledBy.fetches {k c : Cpu} {b : JitBlock} (h : CompiledBy k c b) (htlb : TlbCoherent c) (hsame : Unmodified k c b)
    (hplain : PlainCode k b) (hmode : ModeAllows k c b) : FetchesBlock c b := by
  obtain ⟨⟨j, rfl, hstays⟩, hk, hpaths, hsize⟩ := h
  intro i hi
  obtain ⟨d, v, e, hd, hin, hload, hword⟩ : FetchedFrom k i :=
    ((compileLoop_fetches j.disabled_ops hstays).2 i hi).resolve_left List.not_mem_nil
  have hnone := hd fun _ => False
  have hslow : Untranslated d → loadFast d i.va 4 .exec = none := by
    intro hu
    have hku := hnone.frame.untranslated.1 hu
    exact (hnone.fast hku i.va 4 .exec).trans (hmode.slow (hmode.untranslated.2 hku) i hi).1
  -- where the four bytes lay, and what they were
  have hcode : ∀ n < 4, k.codePa (i.va + BitVec.ofNat 64 n) = some ((k.codePa (i.va + BitVec.ofNat 64 n)).getD 0) := by
    intro n hn
    obtain ⟨q, hq⟩ := fetch_code (hnone.tlb hk) hslow hin hload hn
    rw [← hnone.codePa, hq]
    rfl
  generalize hpa : (fun n => (k.codePa (i.va + BitVec.ofNat 64 n)).getD 0) = pa
  have hpa : ∀ n < 4, k.codePa (i.va + BitVec.ofNat 64 n) = some (pa n) := by
    rw [← hpa]
    exact hcode
  have hbyte : ∀ n < 4, CodeByte k (jitCompileBlock j k.pc k).1 (pa n) := fun n hn => ⟨i, hi, n, hn, hpa n hn⟩
  have hapart : Apart (fun q => ∃ n < 4, q = pa n) k := by
    rintro va level a p hpath q ⟨n, hn, rfl⟩
    exact hplain.apart va level a p hpath _ (hbyte n hn)
  have hthen : Serves i.va pa (fun n => k.bus.mem.ram (pa n - ramBase)) d := by
    have hf := hd fun q => ∃ n < 4, q = pa n
    refine ⟨hf.tlb hk, hslow, fun n hn => hf.codePa.trans (hpa n hn), fun n hn => ?_, fun n hn => ?_, hapart.congr hf.paths⟩
    · obtain ⟨t, b, g, rfl⟩ := hf.frame
      exact hplain.inRam _ (hbyte n hn)
    · exact hf.ram hapart _ ⟨n, hn, rfl⟩
  have hnow : Serves i.va pa (fun n => k.bus.mem.ram (pa n - ramBase)) c := by
    refine ⟨htlb, fun hu => (hmode.slow hu i hi).2, fun n hn => hmode.code hpaths hi hn (hpa n hn), fun n hn => ?_,
      fun n hn => hsame _ (hbyte n hn), hapart.congr hpaths⟩
    rw [hsize]
    exact hplain.inRam _ (hbyte n hn)
  obtain ⟨d', hfirst⟩ := hthen.fetch
  obtain ⟨c', hagain⟩ := hnow.fetch
  rw [hload] at hfirst
  cases hfirst
  refine ⟨c', ?_⟩
  rw [fetchInsn_ok hagain, hword]

variable [HostFp]

/-- **From an empty TLB and an empty cache, a cached block that `jit_exec` runs is what a fetch would bring**, in every
state of a run whose page tables were last edited before an SFENCE.VMA, where the bytes of the block are still those of
its compilation and the mode may fetch it as its compiler did. -/
theorem fetchesBlock_of_run {c : Cpu} {k : BitVec 16 → Cpu} {t : CodeState} {b : JitBlock} (htlb : c.tlb = .zero)
    (hempty : NoBlocks c) (hrun : Relation.ReflTransGen CodeMove ⟨c, False, k⟩ t) (he : ¬ t.edited) (hit : HitsBlock t.cpu b)
    (hsame : Unmodified (t.compiler (cacheIndex t.cpu.pc)) t.cpu b)
    (hplain : PlainCode (t.compiler (cacheIndex t.cpu.pc)) b)
    (hmode : ModeAllows (t.compiler (cacheIndex t.cpu.pc)) t.cpu b) : FetchesBlock t.cpu b := by
  have hok : CodeOk t.cpu t.compiler :=
    (codeMoves_run hrun).ok (fun _ => codeOk_noBlocks hempty (tlbCoherent_zero htlb) k) he
  obtain ⟨j, hj, -, rfl⟩ := hit.cached
  exact (hok.cache j hj _ hit.valid).fetches hok.tlb hsame hplain hmode

/-! ## Two moves -/

/-- **A block that is compiled and run**, when its code leaves memory, translation and cache alone. -/
theorem codeMove_compiled (undef : U64) {c : Cpu} {j : JitState} {code : List SljitOp} (hj : c.jit = some j)
    (hen : j.enabled = true) (hmiss : (j.cache (cacheIndex c.pc)).valid = false)
    (hcode : (jitCompileBlock j c.pc c).1.host_code = some code) (hcore : ∀ d, CoreFrame d (runBlock undef code d).cpu)
    (e : Prop) (k : BitVec 16 → Cpu) : CodeMove ⟨c, e, k⟩ ⟨(jitExec undef c).2,
      e ∨ compileStrays j.disabled_ops (maxInsns j) (.start c.pc) c = true, setAt k (cacheIndex c.pc) c⟩ ∧
      (jitExec undef c).2.jit = (jitCompileBlock j c.pc c).2.jit := by
  have hlookup : lookupBlock j c = jitCompileBlock j c.pc c := by
    unfold lookupBlock
    dsimp only
    rw [hmiss]
    rfl
  have hexec : (jitExec undef c).2 = { (runBlock undef code (jitCompileBlock j c.pc c).2).cpu with
      instret := (runBlock undef code (jitCompileBlock j c.pc c).2).cpu.instret +
        (runBlock undef code (jitCompileBlock j c.pc c).2).regs .R0 } := by
    unfold jitExec
    rw [hj]
    dsimp only
    rw [hen, hlookup, hcode]
    rfl
  have hrun := hcore (jitCompileBlock j c.pc c).2
  refine ⟨⟨.jit undef c, .tail (.single (.compile c e k j hj)) (.other _ _ _ _ ?_ ?_ ?_ ?_ ?_)⟩, ?_⟩ <;> rw [hexec]
  · exact hrun.tlb
  · exact congrArg (fun b : Bus => b.mem.ram) hrun.bus
  · exact hrun.satp
  · exact hrun.ram_size
  · exact hrun.jit
  · exact hrun.jit

/-- **An SRET that hits the TLB.** -/
theorem codeMove_sret {c : Cpu} {p : U64} (hrunning : c.halted = false) (hbreak : c.dbg.break_active = false)
    (hfast : loadFast c c.pc 4 .exec = some p) (hword : (c.bus.mem.ram.read p 4).setWidth 32 = (0x10200073 : U32))
    (hpriv : ¬ c.priv < privS) (e : Prop) (k : BitVec 16 → Cpu) :
    CodeMove ⟨c, e, k⟩ ⟨rv64Step c, e, k⟩ ∧ (rv64Step c).jit = c.jit := by
  have hquiet : checkBreak c = c := by
    unfold checkBreak
    rw [hbreak]
    rfl
  have hfetch : Fetches c 0x10200073 0x10200073 c := by
    refine ⟨hrunning, ?_, rfl⟩
    rw [hquiet, fetchInsn_ok (rv64CpuLoad_hit hfast), hword]
  have hexec : execInsn 0x10200073 c.pc (c.pc + insnBytes (isCompressed 0x10200073)) (logInsn 0x10200073 c) =
      .ok c.csr.sepc (sret (logInsn 0x10200073 c)) := by
    show (if c.priv < privS then illegal 0x10200073 else do set (sret (logInsn 0x10200073 c)); return c.csr.sepc : Exec U64)
      (logInsn 0x10200073 c) = _
    rw [if_neg hpriv]
    rfl
  obtain ⟨r, q, d, hsret, hsatp⟩ := sret_frame (logInsn 0x10200073 c)
  refine ⟨⟨.step c, .single (.other _ _ _ _ ?_ ?_ ?_ ?_ ?_)⟩, ?_⟩ <;> rw [hfetch.rv64Step_ok hexec, hsret]
  · rfl
  · rfl
  · exact hsatp
  · rfl
  · rfl
  · rfl

end Hits

section Blocks

local instance coherenceNet : NetDevice := NetDevice.silent
local instance coherenceFp : HostFp := HostFp.zero

theorem noBlocks_init {c : Cpu} (h : c.jit = some .init) : NoBlocks c := by
  intro j hj i
  rw [h] at hj
  cases hj
  rfl

/-- The address of the one instruction of a block. -/
theorem va_of_single {b : JitBlock} {va : U64} (h : b.src.map JitSrc.va = [va]) {i : JitSrc} (hi : i ∈ b.src) : i.va = va := by
  have hmem := List.mem_map_of_mem (f := JitSrc.va) hi
  rw [h] at hmem
  exact List.mem_singleton.1 hmem

/-- Machine mode, at a jump to itself. -/
def loopCpu : Cpu := rv64Init (programAt [0x0000006F] 0 fun _ => 0) 0x1000

def loopBlock : JitBlock := (jitCompileBlock .init ramBase loopCpu).1

/-- Its tables lie at address 0. -/
theorem loopCpu_path (va : U64) : loopCpu.path va = .outside := by
  obtain ⟨haddr, hvpn⟩ := pteAddr_toNat (rootTable_isTable 0) va 2
  have hroot : (rootTable 0).toNat = 0 := by decide
  have hout : pteInRam loopCpu.ram_size (pteAddr (rootTable loopCpu.csr.satp) va 2) = false := by
    have hbase : ramBase.toNat = 0x80000000 := rfl
    have hlow : ¬ ramBase ≤ pteAddr (rootTable 0) va 2 := by
      rw [BitVec.le_def, haddr, hroot, hbase]
      omega
    unfold pteInRam
    rw [Bool.and_eq_false_iff]
    exact .inl (decide_eq_false hlow)
  unfold Cpu.path findLeaf
  dsimp only
  rw [hout]
  rfl

/-- The jump, found in the cache by the machine that compiled it. -/
theorem fetchesBlock_loop : FetchesBlock (jitExec 0 loopCpu).2 loopBlock := by
  have hcode : loopBlock.host_code = some [.mov .mov (.reg .S1) (.imm 0), .mov .mov r0 (.imm 0x80000004),
      .mov .mov .pc (.imm 0x80000000), countOp, .label .epilogue, .mov .mov r0 (.reg .S1)] := by decide +kernel
  obtain ⟨hmove, hjit⟩ := codeMove_compiled 0 (c := loopCpu) (j := .init) rfl rfl rfl hcode
    (fun d => ⟨rfl, rfl, rfl, rfl, rfl, rfl, rfl, rfl⟩) False fun _ => loopCpu
  have hstays : compileStrays 0 (maxInsns .init) (.start loopCpu.pc) loopCpu = false := by decide +kernel
  have hpc : (jitExec 0 loopCpu).2.pc = loopCpu.pc := by decide +kernel
  have hcached : (jitExec 0 loopCpu).2.jit = some { JitState.init with
      cache := setAt JitState.init.cache (cacheIndex loopCpu.pc) loopBlock } := hjit
  have hva : ∀ {i}, i ∈ loopBlock.src → i.va = ramBase := va_of_single (by decide +kernel)
  have hbyte : ∀ pa, CodeByte loopCpu loopBlock pa → ∃ j < 4, pa = ramBase + BitVec.ofNat 64 j := by
    rintro pa ⟨i, hi, j, hj, hpa⟩
    rw [codePa_untranslated (.inl rfl), hva hi] at hpa
    exact ⟨j, hj, (Option.some.inj hpa).symm⟩
  have hsame : Unmodified loopCpu (jitExec 0 loopCpu).2 loopBlock := by
    have hram : ∀ j < 4, (jitExec 0 loopCpu).2.bus.mem.ram (ramBase + BitVec.ofNat 64 j - ramBase) =
        loopCpu.bus.mem.ram (ramBase + BitVec.ofNat 64 j - ramBase) := by decide +kernel
    intro pa hpa
    obtain ⟨j, hj, rfl⟩ := hbyte pa hpa
    exact hram j hj
  have hplain : PlainCode loopCpu loopBlock := by
    have hin : ∀ j < 4, inRam loopCpu.ram_size (ramBase + BitVec.ofNat 64 j) = true := by decide +kernel
    refine ⟨fun pa hpa => ?_, fun va level a p hpath => ?_⟩
    · obtain ⟨j, hj, rfl⟩ := hbyte pa hpa
      exact hin j hj
    · rw [loopCpu_path] at hpath
      cases hpath
  have hmode : ModeAllows loopCpu (jitExec 0 loopCpu).2 loopBlock := by
    have hmachine : Untranslated (jitExec 0 loopCpu).2 := by decide +kernel
    refine ⟨⟨fun _ => .inl rfl, fun _ => hmachine⟩, fun hu => absurd hmachine hu, fun _ i hi => ?_⟩
    rw [hva hi]
    decide +kernel
  have hcompiler : setAt (fun _ => loopCpu) (cacheIndex loopCpu.pc) loopCpu (cacheIndex (jitExec 0 loopCpu).2.pc) = loopCpu := by
    rw [hpc]
    exact setAt_self _ _ _
  refine fetchesBlock_of_run (c := loopCpu) (k := fun _ => loopCpu) rfl (noBlocks_init rfl) (.single hmove) ?_ ?_ ?_ ?_ ?_ <;>
    dsimp only
  · rintro (h | h)
    · exact h
    · exact absurd (hstays.symm.trans h) (by decide)
  · refine ⟨⟨_, hcached, rfl, ?_⟩, rfl, hpc.symm, by rw [hcode]; rfl⟩
    dsimp only
    rw [hpc]
    exact setAt_self _ _ _
  all_goals rw [hcompiler]
  · exact hsame
  · exact hplain
  · exact hmode

/-- Supervisor mode, at an `addi` and an SRET in a page that user mode may not use; the SRET goes back to the `addi`. -/
def kernelCpu : Cpu :=
  let c := rv64Init (Mem.write (programAt [0x00108093, 0x10200073] 0 fun _ => 0) 0x1008 8 0x2000004F) 0x80000000
  { c with priv := privS, pc := 0x40000000, csr := { c.csr with satp := 0x8000000000080001, sepc := 0x40000000 } }

def kernelBlock : JitBlock := (jitCompileBlock .init 0x40000000 kernelCpu).1

/-- User mode, at the `addi`, its block in the cache. -/
def userAtKernel : Cpu := rv64Step (jitExec 0 kernelCpu).2

/-- **User mode runs a block of the kernel** at a pc that it may not fetch. -/
theorem userRunsKernelBlock : kernelCpu.tlb = .zero ∧ NoBlocks kernelCpu ∧ ∃ t : CodeState, t.cpu = userAtKernel ∧
    Relation.ReflTransGen CodeMove ⟨kernelCpu, False, fun _ => kernelCpu⟩ t ∧ ¬ t.edited ∧ HitsBlock t.cpu kernelBlock ∧
    Unmodified (t.compiler (cacheIndex t.cpu.pc)) t.cpu kernelBlock ∧ t.cpu.priv = privU ∧
    ¬ FetchesBlock t.cpu kernelBlock ∧ (jitExec 0 t.cpu).2.x 1 = t.cpu.x 1 + 1 := by
  have hcode : kernelBlock.host_code = some [.mov .mov (.reg .S1) (.imm 0), .mov .mov r0 (.x 1), .op2 .add r0 r0 (.imm 1),
      .mov .mov (.x 1) r0, countOp, .mov .mov .pc (.imm 0x40000004), .label .epilogue, .mov .mov r0 (.reg .S1)] := by
    decide +kernel
  have hsrc : kernelBlock.src.map JitSrc.va = [0x40000000] := by decide +kernel
  obtain ⟨hmove, hjit⟩ := codeMove_compiled 0 (c := kernelCpu) (j := .init) rfl rfl rfl hcode
    (fun d => ⟨rfl, rfl, rfl, rfl, rfl, rfl, rfl, rfl⟩) False fun _ => kernelCpu
  have hfast : loadFast (jitExec 0 kernelCpu).2 (jitExec 0 kernelCpu).2.pc 4 .exec = some 4 := by decide +kernel
  obtain ⟨hreturn, hjit'⟩ := codeMove_sret (c := (jitExec 0 kernelCpu).2) (by decide +kernel) (by decide +kernel) hfast
    (by decide +kernel) (by decide +kernel)
    (False ∨ compileStrays 0 (maxInsns .init) (.start kernelCpu.pc) kernelCpu = true)
    (setAt (fun _ => kernelCpu) (cacheIndex kernelCpu.pc) kernelCpu)
  have hstays : compileStrays 0 (maxInsns .init) (.start kernelCpu.pc) kernelCpu = false := by decide +kernel
  have hpc : userAtKernel.pc = kernelCpu.pc := by decide +kernel
  have hcached : userAtKernel.jit = some { JitState.init with
      cache := setAt JitState.init.cache (cacheIndex kernelCpu.pc) kernelBlock } := hjit'.trans hjit
  have hcompiler : setAt (fun _ => kernelCpu) (cacheIndex kernelCpu.pc) kernelCpu (cacheIndex userAtKernel.pc) = kernelCpu := by
    rw [hpc]
    exact setAt_self _ _ _
  have hsame : Unmodified kernelCpu userAtKernel kernelBlock := by
    have hram : ∀ j < 4, userAtKernel.bus.mem.ram ((kernelCpu.codePa (0x40000000 + BitVec.ofNat 64 j)).getD 0 - ramBase) =
        kernelCpu.bus.mem.ram ((kernelCpu.codePa (0x40000000 + BitVec.ofNat 64 j)).getD 0 - ramBase) := by decide +kernel
    rintro pa ⟨i, hi, j, hj, hpa⟩
    have hbyte := hram j hj
    rw [← va_of_single hsrc hi, hpa] at hbyte
    exact hbyte
  have hfaults : answer (fetchInsn 0x40000000 userAtKernel) = none := by decide +kernel
  refine ⟨rfl, noBlocks_init rfl, ⟨userAtKernel, _, _⟩, rfl, .tail (.single hmove) hreturn, ?_, ?_, ?_, by decide +kernel, ?_,
    by decide +kernel⟩
  · rintro (h | h)
    · exact h
    · exact absurd (hstays.symm.trans h) (by decide)
  · refine ⟨⟨_, hcached, rfl, ?_⟩, rfl, hpc.symm, by rw [hcode]; rfl⟩
    dsimp only
    rw [hpc]
    exact setAt_self _ _ _
  · dsimp only
    rw [hcompiler]
    exact hsame
  · intro hfetch
    obtain ⟨i, hi, hva⟩ : ∃ i ∈ kernelBlock.src, i.va = 0x40000000 := List.mem_map.1 (by rw [hsrc]; exact List.mem_singleton.2 rfl)
    obtain ⟨d, hd⟩ := hfetch i hi
    dsimp only at hd
    rw [hva] at hd
    rw [hd] at hfaults
    cases hfaults

end Blocks

end PgLinux
