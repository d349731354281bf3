import PgLinux.BlockRuns
/-!
# FlatGuest — code in RAM whose fetches change nothing

Either machine mode runs it behind an empty TLB, where nothing is translated, or the TLB holds its one page.  `Flat` forgets
only the logs, the block cache and the cycle count.  An integer word that both decoders read alike keeps `Flat`.
-/
namespace PgLinux

open Prog

/-! ## Machines -/

/-- `d` is `c` but for its logs, its block cache and its cycle count. -/
def Alike (c d : Cpu) : Prop := ∃ g j y, d = { c with dbg := g, jit := j, cycle := y }

instance : IsPreorder Cpu Alike where
  refl c := ⟨c.dbg, c.jit, c.cycle, rfl⟩
  trans := by
    rintro c _ _ ⟨g, j, y, rfl⟩ ⟨g', j', y', rfl⟩
    exact ⟨g', j', y', rfl⟩

theorem Alike.symm {c d : Cpu} (h : Alike c d) : Alike d c := by
  obtain ⟨g, j, y, rfl⟩ := h
  exact ⟨c.dbg, c.jit, c.cycle, rfl⟩

/-- The page of the code, mapped where it is. -/
def pageEntry : TlbEntry := ⟨vpnOf ramBase, vpnOf ramBase, some 0, 0x0A, 0, false, true⟩

def pageTlb : Tlb := setAt Tlb.zero (tlbIndex ramBase) pageEntry

/-- Machine mode behind an empty TLB, or code of one page that the TLB holds. -/
def FetchesFlat (size : U64) (c : Cpu) : Prop :=
  c.tlb = .zero ∧ c.priv = privM ∨ c.tlb = pageTlb ∧ c.priv ≠ privU ∧ size.toNat ≤ 4096

/-- A machine that fetches from `ram` as it is. -/
structure FlatMachine (ram : Mem) (size : U64) (c : Cpu) : Prop where
  place : FetchesFlat size c
  ram : c.bus.mem.ram = ram
  size : c.ram_size = size
  running : c.halted = false
  zero : c.x 0 = 0

/-- Full-length words in RAM, each followed by another where a block could go on. -/
structure FlatCode (ram : Mem) (size : U64) (code : U64 → Option U32) : Prop where
  word : ∀ a w, code a = some w → isCompressed w = false
  ram : ∀ a w, code a = some w → inRam size a = true ∧ crossesPage a 4 = false ∧ (ram.read (a - ramBase) 4).setWidth 32 = w
  next : ∀ a w, code a = some w → (JitSrc.mk a w).emitted.supported = true →
    (JitSrc.mk a w).emitted.block_ended = false → ∃ w', code (a + 4) = some w'

theorem checkBreak_alike (c : Cpu) : Alike c (checkBreak c) := by
  unfold checkBreak
  split
  · exact ⟨_, c.jit, c.cycle, rfl⟩
  · exact refl_of Alike c

theorem logged_alike (word : U32) (d : Cpu) : Alike d (logInsn word (checkBreak d)) :=
  trans_of Alike (checkBreak_alike d) ⟨_, (checkBreak d).jit, (checkBreak d).cycle, rfl⟩

theorem FlatMachine.of_alike {ram : Mem} {size : U64} {c d : Cpu} (h : FlatMachine ram size c) (ha : Alike c d) :
    FlatMachine ram size d := by
  obtain ⟨g, j, y, rfl⟩ := ha
  exact ⟨h.place, h.ram, h.size, h.running, h.zero⟩

theorem JitSrc.emitted_full {i : JitSrc} (h : isCompressed i.word = false) : i.emitted = emitInsn i.word i.va false := by
  unfold JitSrc.emitted emitWord
  rw [h]
  dsimp only
  rw [if_neg (by simp), if_neg (by simp)]
  rfl

theorem IntOpcode.goes_on {insn : U32} (h : IntOpcode insn) (pc : U64) : (emitInsn insn pc false).block_ended = false := by
  have h32 : (emitOp32 insn).block_ended = false := by
    unfold emitOp32
    dsimp only
    split <;> rfl
  have himm32 : (emitOpImm32 insn).block_ended = false := by
    unfold emitOpImm32
    dsimp only
    split <;> rfl
  unfold emitInsn
  rcases h.cases with h | h | h | h | h | h <;> simp only [h]
  case inr.inr.inl => exact h32
  case inr.inr.inr.inl => exact himm32
  all_goals rfl

theorem add_four (a : U64) (n : Nat) : a + 4 + BitVec.ofNat 64 (4 * n) = a + BitVec.ofNat 64 (4 * (n + 1)) := by
  rw [show 4 * (n + 1) = 4 + 4 * n by omega, BitVec.ofNat_add, ← BitVec.add_assoc]
  rfl

/-- An effect that neither reads nor writes the pc, the counters, the logs and the block cache. -/
def Steady (k : Cpu → Cpu) : Prop := ∀ c g j y n a, k { c with dbg := g, jit := j, cycle := y, instret := n, pc := a } =
  { k c with dbg := g, jit := j, cycle := y, instret := n, pc := a }

section Machines

variable [NetDevice] {ram : Mem} {size : U64} {code : U64 → Option U32} {c d : Cpu}

omit [NetDevice] in
/-- What is not fetched by the fast path is not translated. -/
theorem FlatMachine.fast (h : FlatMachine ram size c) (hc : FlatCode ram size code) {a : U64} {w : U32} (ha : code a = some w) :
    loadFast c a 4 .exec = some (a - ramBase) ∨ loadFast c a 4 .exec = none ∧ c.priv = privM := by
  obtain ⟨hram, hpage, -⟩ := hc.ram a w ha
  rcases h.place with ⟨htlb, hpriv⟩ | ⟨htlb, hpriv, hsize⟩
  · refine .inr ⟨?_, hpriv⟩
    have hte : c.tlbEntry a = .zero := by
      unfold Cpu.tlbEntry
      rw [htlb]
      rfl
    unfold loadFast
    rw [hte]
    rfl
  · have hbase : ramBase.toNat = 2 ^ 31 := rfl
    obtain ⟨hlow, hhigh⟩ : 2 ^ 31 ≤ a.toNat ∧ a.toNat < 2 ^ 31 + size.toNat := by
      unfold inRam inRange at hram
      rw [Bool.and_eq_true, decide_eq_true_eq, decide_eq_true_eq, BitVec.le_def, BitVec.lt_def, BitVec.toNat_add, hbase] at hram
      omega
    have hvpn : vpnOf a = vpnOf ramBase := by
      apply BitVec.eq_of_toNat_eq
      unfold vpnOf
      rw [BitVec.toNat_ushiftRight, BitVec.toNat_ushiftRight, hbase, Nat.shiftRight_eq_div_pow, Nat.shiftRight_eq_div_pow]
      omega
    have hoff : (0 : U64) + pageOffset a = a - ramBase := by
      have hzero : (0 : U64) + pageOffset a = pageOffset a := BitVec.zero_add _
      apply BitVec.eq_of_toNat_eq
      rw [hzero, pageOffset_toNat, BitVec.toNat_sub, hbase]
      omega
    have hte : c.tlbEntry a = pageEntry := by
      unfold Cpu.tlbEntry tlbIndex
      rw [htlb, hvpn]
      rfl
    have hhit : pageEntry.hits a = true := by
      unfold TlbEntry.hits
      rw [hvpn]
      rfl
    have hok : privOk c (pteU pageEntry.perm) = true := by
      have hu : pteU pageEntry.perm = false := rfl
      unfold privOk
      rw [hu]
      simp [hpriv]
    left
    unfold loadFast
    dsimp only
    rw [hte, hhit, hok, hpage, ← hoff]
    rfl

theorem FlatMachine.load (h : FlatMachine ram size c) (hc : FlatCode ram size code) {a : U64} {w : U32}
    (ha : code a = some w) : ∃ v, rv64CpuLoad a 4 .exec c = .ok v c ∧ v.setWidth 32 = w := by
  obtain ⟨hram, hpage, hword⟩ := hc.ram a w ha
  refine ⟨ram.read (a - ramBase) 4, ?_, hword⟩
  rw [← h.ram]
  rcases h.fast hc ha with hfast | ⟨hfast, hpriv⟩
  · unfold rv64CpuLoad
    rw [get_bind_apply, hfast]
    rfl
  · exact rv64CpuLoad_machine hpriv hfast hpage (by rw [h.size]; exact hram)

/-- **A fetch changes nothing but the breakpoint log.** -/
theorem FlatMachine.fetch (h : FlatMachine ram size d) (hc : FlatCode ram size code) {w : U32} (hw : code d.pc = some w) :
    fetchInsn d.pc (checkBreak d) = .ok w (checkBreak d) := by
  obtain ⟨v, hload, hv⟩ := (h.of_alike (checkBreak_alike d)).load hc hw
  rw [fetchInsn_ok hload, hv]

/-- **Compilation changes nothing, and takes only the code.** -/
theorem FlatMachine.compileLoop (h : FlatMachine ram size c) (hc : FlatCode ram size code) (disabled : BitVec 128) :
    ∀ (n : Nat) (k : Compile), (∃ w, code k.pc = some w) → (∀ i ∈ k.src, code i.va = some i.word) →
      (PgLinux.compileLoop disabled n k c).2 = c ∧
        ∀ i ∈ (PgLinux.compileLoop disabled n k c).1.src, code i.va = some i.word
  | 0, _, _, hsrc => ⟨rfl, hsrc⟩
  | n + 1, k, ⟨w, hw⟩, hsrc => by
    obtain ⟨v, hload, hv⟩ := h.load hc hw
    have htake : ∀ i ∈ (k.take w (emitWord disabled w k.pc)).1.src, code i.va = some i.word := by
      intro i hi
      rcases List.mem_append.1 hi with hi | hi
      · exact hsrc i hi
      · rw [List.mem_singleton.1 hi]
        exact hw
    unfold PgLinux.compileLoop
    rw [hload]
    dsimp only
    rw [hv]
    split
    next => exact ⟨rfl, hsrc⟩
    next hsup =>
      split
      next => exact ⟨rfl, htake⟩
      next hgo =>
        have hsup' : (emitWord disabled w k.pc).supported = true := by simpa using hsup
        have hpc : (k.take w (emitWord disabled w k.pc)).1.pc = k.pc + 4 := by
          show (if (k.take w (emitWord disabled w k.pc)).2 then k.pc else k.pc + insnBytes (isCompressed w)) = _
          rw [if_neg hgo, hc.word k.pc w hw]
          rfl
        refine FlatMachine.compileLoop h hc disabled n _ ?_ htake
        rw [hpc]
        have hemit : emitWord disabled w k.pc = (JitSrc.mk k.pc w).emitted := emitWord_supported hsup'
        rw [take_ended, hemit, Bool.not_eq_true, Bool.or_eq_false_iff] at hgo
        exact hc.next k.pc w hw (hemit ▸ hsup') hgo.1

theorem FlatMachine.compile_next (h : FlatMachine ram size c) (hc : FlatCode ram size code) {disabled : BitVec 128}
    {n : Nat} {k : Compile} {w : U32} (hw : code k.pc = some w) (hsup : (emitWord disabled w k.pc).supported = true) :
    PgLinux.compileLoop disabled (n + 1) k c = if (k.take w (emitWord disabled w k.pc)).2
      then ((k.take w (emitWord disabled w k.pc)).1, c)
      else PgLinux.compileLoop disabled n (k.take w (emitWord disabled w k.pc)).1 c := by
  obtain ⟨v, hload, hv⟩ := h.load hc hw
  unfold PgLinux.compileLoop
  rw [hload]
  dsimp only
  rw [hv, if_neg (by rw [hsup]; decide)]
  cases n <;> rfl

theorem FlatMachine.compile_stop (h : FlatMachine ram size c) (hc : FlatCode ram size code) {disabled : BitVec 128}
    {n : Nat} {k : Compile} {w : U32} (hw : code k.pc = some w) (hsup : (emitWord disabled w k.pc).supported = false) :
    (PgLinux.compileLoop disabled (n + 1) k c).1.src = k.src := by
  obtain ⟨v, hload, hv⟩ := h.load hc hw
  unfold PgLinux.compileLoop
  rw [hload]
  dsimp only
  rw [hv, if_pos (by rw [hsup]; rfl)]

/-! ## The relation -/

/-- Every cached block was compiled from the code. -/
def CachedCode (code : U64 → Option U32) (c : Cpu) : Prop :=
  ∀ j, c.jit = some j → ∀ n, (j.cache n).valid = true →
    (j.cache n).Made (j.cache n).guest_pc ∧ ∀ i ∈ (j.cache n).src, code i.va = some i.word

structure Flat (ram : Mem) (size : U64) (code : U64 → Option U32) (c d : Cpu) : Prop where
  alike : Alike c d
  machine : FlatMachine ram size d
  cached : CachedCode code c

theorem Flat.lookup (h : Flat ram size code c d) (hc : FlatCode ram size code) {w : U32} {j : JitState}
    (hw : code d.pc = some w) (hj : c.jit = some j) : Flat ram size code (lookupBlock j c).2 d ∧
      (lookupBlock j c).1.Made d.pc ∧ ∀ i ∈ (lookupBlock j c).1.src, code i.va = some i.word := by
  have hpc : c.pc = d.pc := by
    obtain ⟨g, j, y, rfl⟩ := h.alike
    rfl
  have hmachine := h.machine.of_alike h.alike.symm
  unfold lookupBlock
  dsimp only
  split
  next =>
    obtain ⟨hquiet, hsrc⟩ := hmachine.compileLoop hc j.disabled_ops (maxInsns j) (.start c.pc) ⟨w, by rw [← hw, ← hpc]; rfl⟩
      (fun _ hi => nomatch hi)
    have hmade : (jitCompileBlock j c.pc c).1.Made c.pc := ⟨j, c, rfl⟩
    have hstore : (jitCompileBlock j c.pc c).2 = storeBlock (jitCompileBlock j c.pc c).1 c := by
      show storeBlock _ (compileLoop j.disabled_ops (maxInsns j) (.start c.pc) c).2 = _
      rw [hquiet]
      rfl
    refine ⟨⟨?_, h.machine, ?_⟩, hpc ▸ hmade, hsrc⟩
    · rw [hstore]
      exact trans_of Alike ⟨c.dbg, c.jit, c.cycle, rfl⟩ h.alike
    · rw [hstore]
      intro j' hj' n hvalid
      unfold storeBlock at hj'
      rw [hj] at hj'
      obtain rfl := Option.some.inj hj'
      dsimp only at hvalid ⊢
      by_cases hn : n = cacheIndex (jitCompileBlock j c.pc c).1.guest_pc
      · unfold setAt at hvalid ⊢
        rw [if_pos hn]
        exact ⟨hmade, hsrc⟩
      · unfold setAt at hvalid ⊢
        rw [if_neg hn] at hvalid ⊢
        exact h.cached j hj n hvalid
  next hcur =>
    rw [Bool.or_eq_true, not_or, Bool.not_eq_true, Bool.not_eq_true, Bool.not_eq_false', bne_eq_false_iff_eq] at hcur
    obtain ⟨hmade, hsrc⟩ := h.cached j hj _ hcur.1
    rw [hcur.2, hpc] at hmade
    exact ⟨h, hpc ▸ hmade, hsrc⟩

/-! ## Instructions -/

/-- **A block and an instruction with one steady effect agree afterwards.** -/
theorem Flat.retired {s t : JState} (h : Flat ram size code s.machine d) (next : U64) {a : U64} {k : Cpu → Cpu}
    (hk : Steady k) (hkept : ∀ c, FlatMachine ram size c → FlatMachine ram size (k c)) (ht : t.cpu = k { s.cpu with pc := a }) :
    Flat ram size code { t.cpu with pc := next, instret := t.cpu.instret + s.regs .S1 + 1 } (retire next (k d)) := by
  have hblock := hk s.cpu s.cpu.dbg s.cpu.jit s.cpu.cycle s.cpu.instret a
  have hmachine := hkept _ h.machine
  obtain ⟨g, j, y, he⟩ := h.alike
  have hstep := hk s.cpu g j y (s.cpu.instret + s.regs .S1) s.cpu.pc
  have hed : d =
      { s.cpu with dbg := g, jit := j, cycle := y, instret := s.cpu.instret + s.regs .S1, pc := s.cpu.pc } := he
  rw [← hed] at hstep
  have htc : t.cpu = { k s.cpu with
      dbg := s.cpu.dbg, jit := s.cpu.jit, cycle := s.cpu.cycle, instret := s.cpu.instret, pc := a } := ht.trans hblock
  refine ⟨?_, ⟨hmachine.place, hmachine.ram, hmachine.size, hmachine.running, hmachine.zero⟩, ?_⟩
  · rw [hstep, htc]
    exact ⟨g, j, y + 1, rfl⟩
  · rw [htc]
    exact h.cached

theorem Flat.pc (h : Flat ram size code c d) : c.pc = d.pc := by
  obtain ⟨g, j, y, rfl⟩ := h.alike
  rfl

theorem Flat.logged (h : Flat ram size code c d) (word : U32) : Flat ram size code c (logInsn word (checkBreak d)) :=
  ⟨trans_of Alike h.alike (logged_alike word d), h.machine.of_alike (logged_alike word d), h.cached⟩

section Instructions

variable [HostFp]

/-- **A full-length word, from behind its fetch on.** -/
theorem JitSrc.perform_full {i : JitSrc} (h : isCompressed i.word = false) (d : Cpu) :
    i.perform d = match execInsn i.word i.va i.next d with
      | .ok nextPc e => .ok () (retire nextPc e)
      | .error e e' => .error e e' := by
  have hexp : expandInsn i.word = pure i.word := by
    unfold expandInsn
    rw [h]
    rfl
  exact afterFetch_insn hexp i.va d

/-- The step of a flat machine. -/
theorem FlatMachine.step (h : FlatMachine ram size d) (hc : FlatCode ram size code) {w : U32} (hw : code d.pc = some w) :
    stepBody d = (JitSrc.mk d.pc w).perform (logInsn w (checkBreak d)) := by
  rw [stepBody_eq, h.fetch hc hw]
  rfl

/-- The operations of an instruction that goes on, its count and the next pc. -/
theorem JitSrc.single_run {i : JitSrc} (hend : i.emitted.block_ended = false) {s t : JState}
    (h : runOps none i.emitted.ops s = (none, t)) : ∃ t', runOps none i.single s = (none, t') ∧
      t'.machine = { t.cpu with pc := i.next, instret := t.cpu.instret + s.regs .S1 + 1 } := by
  have hcount := JitSrc.count_of_run h
  refine ⟨(t.exec countOp).exec (.mov .mov .pc (.imm i.next)), ?_, ?_⟩
  · unfold JitSrc.single
    rw [hend, runOps_append, runOps_append, h]
    rfl
  · show { t.cpu with pc := i.next, instret := t.cpu.instret + (t.regs .S1 + 1) } = _
    rw [hcount, BitVec.add_assoc]

theorem JitSrc.perform_int {i : JitSrc} (hint : IntOpcode i.word) (d : Cpu) :
    i.perform d = match intValue i.word i.va d.x with
      | some v => .ok () (retire i.next (d.wr (rd i.word) v))
      | none => .error () (trap d excIllegalInsn (i.word.setWidth 64)) := by
  rw [JitSrc.perform_full hint.not_compressed, execInsn_int hint]
  cases intValue i.word i.va d.x <;> rfl

/-- **An integer word that both decoders read alike keeps `Flat`.** -/
theorem flat_int (hc : FlatCode ram size code) {i : JitSrc} (hw : code i.va = some i.word) (hint : IntOpcode i.word)
    (hm : ¬ JitMismatch i.word) (hsup : i.emitted.supported = true) : Completes JitSrc.perform (Flat ram size code) i := by
  intro s d e hsim hpc hrun
  have hfull := hc.word _ _ hw
  have hemit := JitSrc.emitted_full hfull
  have hend : i.emitted.block_ended = false := by rw [hemit, hint.goes_on]
  rw [hemit] at hsup
  have hx : d.x = s.cpu.x := by
    obtain ⟨g, j, y, hd⟩ := hsim.alike
    rw [hd]
    rfl
  have h0 : s.cpu.x 0 = 0 := (hsim.machine.of_alike hsim.alike.symm).zero
  rw [JitSrc.perform_int hint, hx] at hrun
  cases hv : intValue i.word i.va s.cpu.x with
  | none =>
    rw [hv] at hrun
    cases hrun
  | some v =>
    rw [hv] at hrun
    cases hrun
    obtain ⟨t, ht, htc⟩ := runOps_int hint i.va s h0 hsup
    have hval : s.cpu.wr (rd i.word) (jitValue i.word i.va s.cpu.x) = s.cpu.wr (rd i.word) v := by
      by_cases hrd : rd i.word = 0
      · rw [hrd, wr_zero h0, wr_zero h0]
      · rw [jitValue_eq hint hm hrd hsup h0 hv]
    obtain ⟨t', ht', hmachine⟩ := JitSrc.single_run hend (hemit ▸ ht)
    refine ⟨t', ht', ?_⟩
    rw [hmachine]
    exact hsim.retired i.next (a := s.cpu.pc) (k := fun c => c.wr (rd i.word) v) (fun _ _ _ _ _ _ => rfl)
      (fun c h => ⟨h.place, h.ram, h.size, h.running, rfl⟩) (htc.trans hval)

/-- FMV.D.X. -/
def IsFpMove (insn : U32) : Prop := (opcode insn).toNat = 0x53 ∧ (funct7 insn).toNat = 0x79

theorem rv64FpExec_move {insn : U32} (h : IsFpMove insn) (c : Cpu) :
    rv64FpExec insn c = (.ok, wrD (rd insn) (c.x (rs1 insn)) (markFsDirty c)) := by
  have hop : opcode insn = 0x53 := BitVec.eq_of_toNat_eq h.1
  have harith : fpCompute (markFsDirty c) insn = some (wrD (rd insn) (c.x (rs1 insn)) (markFsDirty c)) := by
    unfold fpCompute fpArithS fpArithD
    rw [if_pos hop]
    simp only [h.2]
    rfl
  unfold rv64FpExec
  simp only [h.1, harith]

theorem JitSrc.perform_move {i : JitSrc} (hfull : isCompressed i.word = false) (hmove : IsFpMove i.word) (d : Cpu) :
    i.perform d = .ok () (retire i.next (wrD (rd i.word) (d.x (rs1 i.word)) (markFsDirty d))) := by
  rw [JitSrc.perform_full hfull]
  unfold execInsn
  rw [get_bind_apply]
  simp only [hmove.1]
  unfold execFp
  rw [rv64FpExec_move hmove]

/-- **So does a move to a floating-point register.** -/
theorem flat_fpMove (hc : FlatCode ram size code) {i : JitSrc} (hw : code i.va = some i.word) (hmove : IsFpMove i.word) :
    Completes JitSrc.perform (Flat ram size code) i := by
  intro s d e hsim hpc hrun
  have hfull := hc.word _ _ hw
  have hemit : i.emitted = emitFp i.word i.va := by
    rw [JitSrc.emitted_full hfull]
    unfold emitInsn
    simp only [hmove.1]
  rw [JitSrc.perform_move hfull hmove] at hrun
  cases hrun
  obtain ⟨t, htc, ht⟩ := runOps_emitFp i.word i.va s (rv64FpExec_move hmove _)
  rw [if_pos rfl, ← hemit] at ht
  obtain ⟨t', ht', hmachine⟩ := JitSrc.single_run (by rw [hemit]; rfl) ht
  refine ⟨t', ht', ?_⟩
  rw [hmachine]
  exact hsim.retired i.next (a := i.va) (k := fun c => wrD (rd i.word) (c.x (rs1 i.word)) (markFsDirty c))
    (fun _ _ _ _ _ _ => rfl) (fun c h => ⟨h.place, h.ram, h.size, h.running, h.zero⟩) htc

end Instructions

end Machines

/-! ## Programs -/

/-- RAM that holds the words from its start on. -/
def textRam (ws : List U32) : Mem := fun a => byteOf ((ws.getD (a.toNat / 4) 0).setWidth 64) (a.toNat % 4)

def textCode (ws : List U32) (a : U64) : Option U32 :=
  if (a - ramBase).toNat % 4 = 0 then ws[(a - ramBase).toNat / 4]? else none

theorem textRam_read (ws : List U32) {k : Nat} (hk : 4 * k + 4 ≤ 2 ^ 64) (w : U32) (h : ws[k]? = some w) :
    ((textRam ws).read (BitVec.ofNat 64 (4 * k)) 4).setWidth 32 = w := by
  have hread : (textRam ws).read (BitVec.ofNat 64 (4 * k)) 4 =
      (Mem.write (fun _ => 0) (BitVec.ofNat 64 (4 * k)) 4 (w.setWidth 64)).read (BitVec.ofNat 64 (4 * k)) 4 := by
    refine Mem.read_congr 4 _ fun i hi => ?_
    have hat : (BitVec.ofNat 64 (4 * k) + BitVec.ofNat 64 i).toNat = 4 * k + i := by
      rw [← BitVec.ofNat_add, BitVec.toNat_ofNat]
      omega
    have hoff : (BitVec.ofNat 64 (4 * k) + BitVec.ofNat 64 i - BitVec.ofNat 64 (4 * k)).toNat = i := by
      rw [add_sub_self, BitVec.toNat_ofNat]
      omega
    have hdiv : (4 * k + i) / 4 = k := by omega
    have hmod : (4 * k + i) % 4 = i := by omega
    rw [Mem.write_of_lt _ _ _ _ _ (by omega), hoff]
    unfold textRam
    rw [hat, hdiv, hmod, List.getD_eq_getElem?_getD, h]
    rfl
  rw [hread]
  exact Mem.read_word _ _ w

theorem textCode_some {ws : List U32} {a : U64} {w : U32} (h : textCode ws a = some w) :
    ∃ k, ws[k]? = some w ∧ a = ramBase + BitVec.ofNat 64 (4 * k) := by
  unfold textCode at h
  split at h
  next hmod =>
    refine ⟨_, h, ?_⟩
    have hdiv : 4 * ((a - ramBase).toNat / 4) = (a - ramBase).toNat := by omega
    rw [hdiv, BitVec.ofNat_toNat, BitVec.setWidth_eq, BitVec.add_comm, BitVec.sub_add_cancel]
  next => cases h

theorem textCode_at {ws : List U32} {k : Nat} (hk : 4 * k < 2 ^ 64) :
    textCode ws (ramBase + BitVec.ofNat 64 (4 * k)) = ws[k]? := by
  have hoff : (ramBase + BitVec.ofNat 64 (4 * k) - ramBase).toNat = 4 * k := by
    rw [add_sub_self, BitVec.toNat_ofNat]
    omega
  unfold textCode
  rw [hoff, if_pos (by omega)]
  congr 1
  omega

/-- **A program of full-length words that ends where a block has to is flat code.** -/
theorem flatCode_text {ws : List U32} {size : U64} (hsize : 4 * ws.length ≤ size.toNat) (hroom : size.toNat ≤ 2 ^ 32)
    (hfull : ∀ w ∈ ws, isCompressed w = false)
    (hlast : ∀ k w, ws[k]? = some w →
      (JitSrc.mk (ramBase + BitVec.ofNat 64 (4 * k)) w).emitted.supported = true → k + 1 < ws.length) :
    FlatCode (textRam ws) size (textCode ws) := by
  have hlt : ∀ k w, ws[k]? = some w → k < ws.length := fun k w h => (List.getElem?_eq_some_iff.1 h).1
  have hat : ∀ k, k < ws.length → (ramBase + BitVec.ofNat 64 (4 * k)).toNat = 0x80000000 + 4 * k := by
    intro k hk
    rw [BitVec.toNat_add, BitVec.toNat_ofNat, show ramBase.toNat = 0x80000000 from rfl]
    omega
  refine ⟨fun a w h => ?_, fun a w h => ?_, fun a w h hsup _ => ?_⟩
  · obtain ⟨k, hk, -⟩ := textCode_some h
    exact hfull w (List.mem_of_getElem? hk)
  · obtain ⟨k, hk, rfl⟩ := textCode_some h
    have hlen := hlt k w hk
    refine ⟨?_, ?_, ?_⟩
    · have hend : (ramBase + size).toNat = 0x80000000 + size.toNat := by
        rw [BitVec.toNat_add, show ramBase.toNat = 0x80000000 from rfl]
        omega
      unfold inRam inRange
      rw [Bool.and_eq_true, decide_eq_true_eq, decide_eq_true_eq, BitVec.le_def, BitVec.lt_def, hat k hlen, hend]
      exact ⟨by show 0x80000000 ≤ _; omega, by omega⟩
    · have hoff : (pageOffset (ramBase + BitVec.ofNat 64 (4 * k))).toNat = (0x80000000 + 4 * k) % 4096 := by
        unfold pageOffset
        rw [BitVec.toNat_and, hat k hlen]
        exact Nat.and_two_pow_sub_one_eq_mod _ 12
      unfold crossesPage
      rw [hoff]
      simp
      omega
    · rw [add_sub_self]
      exact textRam_read ws (by omega) w hk
  · obtain ⟨k, hk, rfl⟩ := textCode_some h
    have hnext : k + 1 < ws.length := hlast k w hk hsup
    have haddr : ramBase + BitVec.ofNat 64 (4 * k) + 4 = ramBase + BitVec.ofNat 64 (4 * (k + 1)) := by
      rw [show 4 * (k + 1) = 4 * k + 4 from rfl, BitVec.ofNat_add, ← BitVec.add_assoc]
      rfl
    rw [haddr, textCode_at (by omega)]
    exact ⟨_, List.getElem?_eq_getElem hnext⟩

theorem ecall_unsupported (a : U64) : (JitSrc.mk a 0x00000073).emitted.supported = false := by
  have hop : (opcode 0x00000073).toNat = 0x73 := rfl
  have hfull : isCompressed 0x00000073 = false := by decide
  rw [JitSrc.emitted_full hfull]
  unfold emitInsn
  simp only [hop]
  rfl

theorem roomy : (0x1000 : U64).toNat ≤ 2 ^ 32 := by
  show 4096 ≤ 4294967296
  omega

/-- **A program of full-length words before an ECALL is flat code.** -/
theorem flatCode_ecall {us : List U32} (hlen : us.length < 1024) (hfull : ∀ w ∈ us, isCompressed w = false) :
    FlatCode (textRam (us ++ [0x00000073])) 0x1000 (textCode (us ++ [0x00000073])) := by
  have hsize : (0x1000 : U64).toNat = 4096 := rfl
  refine flatCode_text (by rw [List.length_append, List.length_singleton, hsize]; omega) roomy (fun w hw => ?_)
    fun k w hk hsup => ?_
  · rcases List.mem_append.1 hw with hw | hw
    · exact hfull w hw
    · rw [List.mem_singleton.1 hw]
      decide
  · by_contra hend
    have hlt := (List.getElem?_eq_some_iff.1 hk).1
    rw [List.length_append, List.length_singleton] at hlt hend
    obtain rfl : k = us.length := by omega
    rw [List.getElem?_concat_length] at hk
    obtain rfl : (0x00000073 : U32) = w := Option.some.inj hk
    rw [ecall_unsupported] at hsup
    cases hsup

/-- A machine at reset with a program at its first instruction. -/
def textCpu (ws : List U32) : Cpu := rv64Init (textRam ws) 0x1000

theorem textCpu_flat (ws : List U32) (code : U64 → Option U32) [NetDevice] : Flat (textRam ws) 0x1000 code (textCpu ws) (textCpu ws) := by
  refine ⟨refl_of Alike _, ⟨.inl ⟨rfl, rfl⟩, rfl, rfl, rfl, rfl⟩, fun j hj n hvalid => ?_⟩
  obtain rfl := Option.some.inj hj
  cases hvalid

end PgLinux
