import PgLinux.Step
/-!
# Frames — what loads and stores may change

Every load and store is made of translations, bus accesses and one log entry, so a preorder that allows these allows
the whole access.  `AccessFrame` is the first instance: an access leaves the registers alone.
-/
namespace PgLinux

open Prog

/-! ## Fast path or not -/

section Paths

variable [NetDevice] {c : Cpu} {va : U64} {size : Nat}

theorem rv64CpuLoad_hit {access : AccessType} {p : U64} (h : loadFast c va size access = some p) :
    rv64CpuLoad va size access c = .ok (c.bus.mem.ram.read p size) c := by
  unfold rv64CpuLoad
  rw [get_bind_apply, h]
  rfl

theorem rv64CpuLoad_miss {access : AccessType} (h : loadFast c va size access = none) :
    rv64CpuLoad va size access c = (if crossesPage va size then loadBytes va access size 0 0
      else do busLoadM (← rv64Translate va access) size) c := by
  unfold rv64CpuLoad
  rw [get_bind_apply, h]

theorem storeAt_hit {val p : U64} (h : storeFast c va size = some p) :
    storeAt va size val c = .ok () (c.writeRam p size val) := by
  unfold storeAt
  rw [get_bind_apply, h]
  rfl

theorem storeAt_miss {val : U64} (h : storeFast c va size = none) :
    storeAt va size val c = (if crossesPage va size then storeBytes va val size 0
      else do busStoreM (← rv64Translate va .write) size val) c := by
  unfold storeAt
  rw [get_bind_apply, h]

theorem rv64Translate_machine {c : Cpu} (h : c.priv = privM) (va : U64) (access : AccessType) :
    rv64Translate va access c = .ok va c := by
  show (if c.priv = privM then return va else _ : Access U64) c = _
  rw [if_pos h]
  rfl

theorem rv64Translate_bare {c : Cpu} (h : satpMode c.csr.satp = satpModeBare) (va : U64) (access : AccessType) :
    rv64Translate va access c = .ok va c := by
  show (if c.priv = privM then return va else if satpMode c.csr.satp = satpModeBare then return va else _ : Access U64) c = _
  rw [if_pos h]
  split <;> rfl

/-- **A load that misses the TLB and is not translated reads RAM at its own address.** -/
theorem rv64CpuLoad_physical {c : Cpu} {va : U64} {size : Nat} {access : AccessType}
    (htr : rv64Translate va access c = .ok va c) (hmiss : loadFast c va size access = none)
    (hpage : crossesPage va size = false) (hram : inRam c.ram_size va = true) :
    rv64CpuLoad va size access c = .ok (c.bus.mem.ram.read (va - ramBase) size) c := by
  rw [rv64CpuLoad_miss hmiss, if_neg (by simp [hpage])]
  rw [bind_of_ok htr]
  show EStateM.Result.ok (busLoad c.ram_size c.bus va size).1
    { c with bus := (busLoad c.ram_size c.bus va size).2 } = _
  unfold busLoad
  rw [if_pos hram]

theorem rv64CpuLoad_machine {c : Cpu} {va : U64} {size : Nat} {access : AccessType} (h : c.priv = privM)
    (hmiss : loadFast c va size access = none) (hpage : crossesPage va size = false)
    (hram : inRam c.ram_size va = true) :
    rv64CpuLoad va size access c = .ok (c.bus.mem.ram.read (va - ramBase) size) c :=
  rv64CpuLoad_physical (rv64Translate_machine h va access) hmiss hpage hram

end Paths

/-! ## Where an access leads -/

/-- The TLB entry of a leaf, written to its slot. -/
def Cpu.fill (c : Cpu) (va : U64) (level : Nat) (pte newPte : U64) : Cpu :=
  { c with tlb := setAt c.tlb (tlbIndex va) (leafEntry c.ram_size va level pte newPte) }

/-- The watchpoint log is all that `logStore` changes. -/
theorem logStore_dbg (va : U64) (size : Nat) (val : U64) (c : Cpu) : ∃ d, logStore va size val c = { c with dbg := d } := by
  unfold logStore
  split <;> exact ⟨_, rfl⟩

section Leads

variable {R : Cpu → Cpu → Prop}

theorem mmioLoad_mem (b : Bus) (pa : U64) (n : Nat) : (mmioLoad b pa n).2.mem = b.mem := by
  unfold mmioLoad
  dsimp only
  repeat' split
  all_goals rfl

theorem busLoad_mem (ramSize : U64) (b : Bus) (pa : U64) (n : Nat) : (busLoad ramSize b pa n).2.mem = b.mem := by
  unfold busLoad
  split
  · rfl
  · exact mmioLoad_mem b pa n

/-- What is behind the bus, after an access or a hit of the fast path. -/
structure BusRules [NetDevice] (R : Cpu → Cpu → Prop) : Prop where
  load : ∀ c pa size, R c { c with bus := (busLoad c.ram_size c.bus pa size).2 }
  store : ∀ c pa size val, R c { c with bus := busStore c.ram_size c.bus pa size val }
  write : ∀ c p size val, R c (c.writeRam p size val)

theorem BusRules.of_any [NetDevice] (hbus : ∀ c b, R c { c with bus := b }) : BusRules R where
  load c _ _ := hbus c _
  store c _ _ _ := hbus c _
  write c _ _ _ := hbus c _

theorem leads_busLoadM (hload : ∀ c pa size, R c { c with bus := (busLoad c.ram_size c.bus pa size).2 }) (pa : U64)
    (size : Nat) : Leads R (busLoadM pa size) := fun c => hload c pa size

variable [IsPreorder Cpu R]

theorem leads_readPte (hload : ∀ c pa size, R c { c with bus := (busLoad c.ram_size c.bus pa size).2 }) (a : U64) :
    Leads R (readPte a) := leads_get_bind fun _ => leads_ite (leads_pure _) (leads_busLoadM hload a 8)

variable [NetDevice]

omit [IsPreorder Cpu R] in
theorem leads_busStoreM (hbus : BusRules R) (pa : U64) (size : Nat) (val : U64) : Leads R (busStoreM pa size val) :=
  leads_modify fun c => hbus.store c pa size val

theorem leads_walkLeaf (hbus : BusRules R)
    (hfill : ∀ c va level pte new, level < 3 → pteReserved pte = false → pteLeaf pte = true →
      R c (c.fill va level pte new)) (va : U64)
    (access : AccessType) {level : Nat} (hl : level < 3) (a : U64) {pte : U64} (hres : pteReserved pte = false)
    (hleaf : pteLeaf pte = true) : Leads R (walkLeaf va access level a pte) := by
  have hrest : Leads R (do
      modify fun c => { c with tlb := setAt c.tlb (tlbIndex va) (leafEntry c.ram_size va level pte (withAD pte access)) }
      return leafPa level pte va : Access U64) :=
    leads_bind (leads_modify fun c => hfill c va level pte _ hl hres hleaf) fun _ => leads_pure _
  unfold walkLeaf
  dsimp only
  split
  · exact leads_bind (leads_busStoreM hbus a 8 _) fun _ => hrest
  · exact hrest

theorem leads_walk (hbus : BusRules R)
    (hfill : ∀ c va level pte new, level < 3 → pteReserved pte = false → pteLeaf pte = true →
      R c (c.fill va level pte new)) (va : U64)
    (access : AccessType) : ∀ (n : Nat) (ptAddr : U64), n ≤ 3 → Leads R (walk va access n ptAddr)
  | 0, _, _ => leads_throw _
  | n + 1, ptAddr, hn => by
    unfold walk
    dsimp only
    refine leads_bind (leads_readPte hbus.load _) fun pte => ?_
    split
    · exact leads_throw _
    next hbad =>
      rw [Bool.not_eq_true, Bool.or_eq_false_iff] at hbad
      refine leads_bind (leads_pure _) fun _ => leads_ite_of (fun hleaf => ?_) fun _ =>
        leads_walk hbus hfill va access n _ (by omega)
      exact leads_get_bind fun c => leads_ite (leads_walkLeaf hbus hfill va access hn _ hbad.2 hleaf) (leads_throw _)

theorem leads_rv64Translate (hbus : BusRules R)
    (hfill : ∀ c va level pte new, level < 3 → pteReserved pte = false → pteLeaf pte = true →
      R c (c.fill va level pte new)) (va : U64)
    (access : AccessType) : Leads R (rv64Translate va access) := by
  unfold rv64Translate
  refine leads_get_bind fun c => leads_ite (leads_pure _) (leads_ite (leads_pure _) ?_)
  split
  · exact leads_pure _
  · exact leads_walk hbus hfill va access 3 _ (Nat.le_refl 3)

theorem leads_loadBytes (hbus : BusRules R) (htr : ∀ va a, Leads R (rv64Translate va a)) (va : U64)
    (access : AccessType) : ∀ (n i : Nat) (r : U64), Leads R (loadBytes va access n i r)
  | 0, _, _ => leads_pure _
  | n + 1, i, _ => leads_bind (htr _ _) fun pa => leads_bind (leads_busLoadM hbus.load pa 1) fun _ =>
      leads_loadBytes hbus htr va access n (i + 1) _

/-- **A load leads where translations and bus accesses lead.** -/
theorem leads_rv64CpuLoad (hbus : BusRules R) (htr : ∀ va a, Leads R (rv64Translate va a))
    (va : U64) (size : Nat) (access : AccessType) : Leads R (rv64CpuLoad va size access) := by
  unfold rv64CpuLoad
  refine leads_get_bind fun c => ?_
  split
  · exact leads_pure _
  · exact leads_ite (leads_loadBytes hbus htr va access size 0 0)
      (leads_bind (htr va access) fun pa => leads_busLoadM hbus.load pa size)

theorem leads_storeBytes (hbus : BusRules R) (htr : ∀ va a, Leads R (rv64Translate va a))
    (va val : U64) : ∀ (n i : Nat), Leads R (storeBytes va val n i)
  | 0, _ => leads_pure _
  | n + 1, i => leads_bind (htr _ _) fun pa => leads_bind (leads_busStoreM hbus pa 1 _) fun _ =>
      leads_storeBytes hbus htr va val n (i + 1)

theorem leads_storeAt (hbus : BusRules R) (htr : ∀ va a, Leads R (rv64Translate va a))
    (va : U64) (size : Nat) (val : U64) : Leads R (storeAt va size val) := by
  intro c
  cases h : storeFast c va size with
  | some p =>
    rw [storeAt_hit h]
    exact hbus.write c p size val
  | none =>
    rw [storeAt_miss h]
    exact leads_ite (leads_storeBytes hbus htr va val size 0)
      (leads_bind (htr va .write) fun pa => leads_busStoreM hbus pa size val) c

/-- **A store leads where the log entry, translations and bus accesses lead.** -/
theorem leads_cpuStore (hbus : BusRules R) (hlog : ∀ c d, R c { c with dbg := d })
    (htr : ∀ va a, Leads R (rv64Translate va a)) (va : U64) (size : Nat) (val : U64) : Leads R (cpuStore va size val) :=
  leads_bind (leads_modify fun c => by
    obtain ⟨d, hd⟩ := logStore_dbg va size val c
    rw [hd]
    exact hlog c d) fun _ => leads_storeAt hbus htr va size val

end Leads

/-! ## The frame -/

/-- Only the TLB, what is behind the bus, and the debug logs. -/
def AccessFrame (c c' : Cpu) : Prop := ∃ t b d, c' = { c with tlb := t, bus := b, dbg := d }

instance : IsPreorder Cpu AccessFrame where
  refl c := ⟨c.tlb, c.bus, c.dbg, rfl⟩
  trans := by
    rintro c _ _ ⟨t, b, d, rfl⟩ ⟨t', b', d', rfl⟩
    exact ⟨t', b', d', rfl⟩

section Frame

variable [NetDevice]

theorem rv64Translate_frame (va : U64) (access : AccessType) : Leads AccessFrame (rv64Translate va access) :=
  leads_rv64Translate (.of_any fun c b => ⟨c.tlb, b, c.dbg, rfl⟩) (fun c _ _ _ _ _ _ _ => ⟨_, c.bus, c.dbg, rfl⟩) va access

theorem rv64CpuLoad_frame (va : U64) (size : Nat) (access : AccessType) :
    Leads AccessFrame (rv64CpuLoad va size access) :=
  leads_rv64CpuLoad (.of_any fun c b => ⟨c.tlb, b, c.dbg, rfl⟩) rv64Translate_frame va size access

theorem cpuStore_frame (va : U64) (size : Nat) (val : U64) : Leads AccessFrame (cpuStore va size val) :=
  leads_cpuStore (.of_any fun c b => ⟨c.tlb, b, c.dbg, rfl⟩) (fun c d => ⟨c.tlb, c.bus, d, rfl⟩) rv64Translate_frame va size val

end Frame

/-- A trap writes CSRs, the mode, the pc and the log. -/
theorem trap_frame (c : Cpu) (cause tval : U64) :
    ∃ r p pc d, trap c cause tval = { c with csr := r, priv := p, pc := pc, dbg := d } := by
  unfold trap Cpu.logTrap
  dsimp only
  split <;> split <;> exact ⟨_, _, _, _, rfl⟩

theorem trap_satp (c : Cpu) (cause tval : U64) : (trap c cause tval).csr.satp = c.csr.satp := by
  unfold trap Cpu.logTrap
  dsimp only
  split <;> split <;> rfl

/-- SRET writes CSRs, the mode and the log. -/
theorem sret_frame (c : Cpu) : ∃ r p d, sret c = { c with csr := r, priv := p, dbg := d } ∧ r.satp = c.csr.satp := by
  unfold sret backfill
  dsimp only
  split <;> exact ⟨_, _, _, rfl, rfl⟩

/-- A CSR write changes CSRs, and may flush. -/
theorem csrWrite_frame (c : Cpu) (csr : BitVec 12) (val : U64) :
    ∃ r f t j, csrWrite c csr val = { c with csr := r, fcsr := f, tlb := t, jit := j } := by
  unfold csrWrite
  split
  · exact ⟨_, c.fcsr, _, _, rfl⟩
  · split
    · exact ⟨c.csr, _, c.tlb, c.jit, rfl⟩
    · split
      · exact ⟨c.csr, _, c.tlb, c.jit, rfl⟩
      · split
        · exact ⟨c.csr, _, c.tlb, c.jit, rfl⟩
        · exact ⟨_, c.fcsr, c.tlb, c.jit, rfl⟩

theorem csrUpdate_satp (r : Csr) (csr : BitVec 12) (val : U64) : (csrUpdate r csr val).satp = r.satp := by
  unfold csrUpdate
  split <;> rfl

/-- No other write touches `satp`, the TLB or the block cache. -/
theorem csrWrite_other {csr : BitVec 12} (h : csr ≠ 0x180) (c : Cpu) (val : U64) :
    ∃ r f, r.satp = c.csr.satp ∧ csrWrite c csr val = { c with csr := r, fcsr := f } := by
  unfold csrWrite
  rw [if_neg h]
  split
  · exact ⟨c.csr, _, rfl, rfl⟩
  split
  · exact ⟨c.csr, _, rfl, rfl⟩
  split
  · exact ⟨c.csr, _, rfl, rfl⟩
  · exact ⟨_, c.fcsr, csrUpdate_satp _ _ _, rfl⟩

/-! ## One step -/

section OrTrap

variable {α : Type} {m : Access α} {tval : U64} {c d : Cpu} {v : α}

theorem orTrap_of_ok (h : m c = .ok v d) : orTrap m tval c = .ok v d := by
  unfold orTrap
  rw [h]

theorem orTrap_of_error {exc : U64} (h : m c = .error exc d) : orTrap m tval c = .error () (trap d exc tval) := by
  unfold orTrap
  rw [h]

theorem orTrap_eq_ok : orTrap m tval c = .ok v d ↔ m c = .ok v d := by
  refine ⟨fun h => ?_, orTrap_of_ok⟩
  cases hm : m c with
  | ok u e =>
    rw [orTrap_of_ok hm] at h
    cases h
    rfl
  | error exc e =>
    rw [orTrap_of_error hm] at h
    cases h

theorem orTrap_eq_error : orTrap m tval c = .error () d ↔ ∃ exc e, m c = .error exc e ∧ d = trap e exc tval := by
  constructor
  · intro h
    cases hm : m c with
    | ok u e =>
      rw [orTrap_of_ok hm] at h
      cases h
    | error exc e =>
      rw [orTrap_of_error hm] at h
      cases h
      exact ⟨exc, e, rfl, rfl⟩
  · rintro ⟨exc, e, hm, rfl⟩
    exact orTrap_of_error hm

end OrTrap

@[simp] theorem checkBreak_pc (c : Cpu) : (checkBreak c).pc = c.pc := by
  unfold checkBreak
  split <;> rfl

theorem checkBreak_frame (c : Cpu) : AccessFrame c (checkBreak c) := by
  unfold checkBreak
  split
  · exact ⟨c.tlb, c.bus, _, rfl⟩
  · exact refl_of AccessFrame c

theorem expandInsn_cases (word : U32) :
    (∃ insn, expandInsn word = pure insn) ∨ expandInsn word = trapM excIllegalInsn ((word.setWidth 16).setWidth 64) := by
  unfold expandInsn
  split
  · split
    · exact .inl ⟨_, rfl⟩
    · exact .inr rfl
  · exact .inl ⟨_, rfl⟩

section Step

variable [NetDevice]

theorem fetchInsn_ok {c c' : Cpu} {pc v : U64} (h : rv64CpuLoad pc 4 .exec c = .ok v c') :
    fetchInsn pc c = .ok (v.setWidth 32) c' := by
  unfold fetchInsn
  rw [h]

/-- A step of `c` fetches a word that stands for `insn`, and `d` is the machine after the fetch. -/
structure Fetches (c : Cpu) (word insn : U32) (d : Cpu) : Prop where
  running : c.halted = false
  fetch : fetchInsn c.pc (checkBreak c) = .ok word d
  expand : expandInsn word = pure insn

/-- Untranslated code, away from breakpoints. -/
theorem fetches_word {c : Cpu} {word : U32} (hrun : c.halted = false) (hbreak : checkBreak c = c)
    (htr : rv64Translate c.pc .exec c = .ok c.pc c) (hmiss : loadFast c c.pc 4 .exec = none)
    (hpage : crossesPage c.pc 4 = false) (hram : inRam c.ram_size c.pc = true)
    (hmem : (c.bus.mem.ram.read (c.pc - ramBase) 4).setWidth 32 = word) (hword : isCompressed word = false) :
    Fetches c word word c := by
  have hload := rv64CpuLoad_physical htr hmiss hpage hram
  refine ⟨hrun, ?_, ?_⟩
  · rw [hbreak, fetchInsn_ok hload, hmem]
  · unfold expandInsn
    rw [hword]
    rfl

variable [HostFp]

/-- The rest of a step, once a word is fetched. -/
def afterFetch (pc : U64) (word : U32) : Exec Unit := do
  let insn ← expandInsn word
  let nextPc ← execInsn insn pc (pc + insnBytes (isCompressed word))
  modify (retire nextPc)

theorem stepBody_eq (c : Cpu) : stepBody c = match fetchInsn c.pc (checkBreak c) with
    | .ok word d => afterFetch c.pc word (logInsn word d)
    | .error e d => .error e d := by
  show (do
    let word ← fetchInsn (checkBreak c).pc
    modify (logInsn word)
    let insn ← expandInsn word
    let nextPc ← execInsn insn (checkBreak c).pc ((checkBreak c).pc + insnBytes (isCompressed word))
    modify (retire nextPc) : Exec Unit) (checkBreak c) = _
  rw [checkBreak_pc]
  show EStateM.bind (fetchInsn c.pc) _ (checkBreak c) = _
  unfold EStateM.bind
  cases fetchInsn c.pc (checkBreak c) <;> rfl

theorem afterFetch_insn {word insn : U32} (he : expandInsn word = pure insn) (pc : U64) (c : Cpu) :
    afterFetch pc word c = match execInsn insn pc (pc + insnBytes (isCompressed word)) c with
      | .ok nextPc d => .ok () (retire nextPc d)
      | .error e d => .error e d := by
  unfold afterFetch
  rw [he]
  show EStateM.bind (execInsn insn pc (pc + insnBytes (isCompressed word))) _ c = _
  unfold EStateM.bind
  cases execInsn insn pc (pc + insnBytes (isCompressed word)) c <;> rfl

/-- **A step whose fetch succeeds is the execution of what was fetched.** -/
theorem stepBody_fetched {c c' : Cpu} {word insn : U32} (hf : fetchInsn c.pc (checkBreak c) = .ok word c')
    (he : expandInsn word = pure insn) :
    stepBody c = (do modify (retire (← execInsn insn c.pc (c.pc + insnBytes (isCompressed word)))) : Exec Unit)
      (logInsn word c') := by
  rw [stepBody_eq, hf]
  show (do
    let insn ← expandInsn word
    let nextPc ← execInsn insn c.pc (c.pc + insnBytes (isCompressed word))
    modify (retire nextPc) : Exec Unit) (logInsn word c') = _
  rw [he]
  rfl

end Step

/-! ## Where an access goes on -/

section Next

variable [NetDevice] {insn : U32} {nextPc : U64} {c e : Cpu}

theorem execLoad_next {m : U64} (h : execLoad insn nextPc c = .ok m e) : m = nextPc := by
  unfold execLoad at h
  rw [get_bind_apply] at h
  cases hkind : loadKind (funct3 insn) with
  | none =>
    rw [hkind] at h
    cases h
  | some kind =>
    rw [hkind] at h
    obtain ⟨v, d, -, h⟩ := bind_eq_ok.1 h
    cases h
    rfl

theorem execStore_next {m : U64} (h : execStore insn nextPc c = .ok m e) : m = nextPc := by
  unfold execStore at h
  rw [get_bind_apply] at h
  cases hkind : storeSize (funct3 insn) with
  | none =>
    rw [hkind] at h
    cases h
  | some size =>
    rw [hkind] at h
    obtain ⟨v, d, -, h⟩ := bind_eq_ok.1 h
    cases h
    rfl

variable [HostFp]

theorem execFp_next {m : U64} (h : execFp insn nextPc c = .ok m e) : m = nextPc := by
  unfold execFp at h
  split at h <;> cases h
  rfl

end Next

end PgLinux
