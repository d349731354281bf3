import PgLinux.FlatGuest
import PgLinux.ZeroRegister
/-!
# BlockBookkeeping — `jit_exec` counts what it ran

When it answers n > 0 the machine is where n steps of the interpreter would be, whichever way the block ended, unless it
ended at its 61st load, store or floating-point instruction, or fetching shows.  That end skips the write of the next pc, so
the instruction is counted and then run again.  And the compiler fetches ahead of the block, where the interpreter fetches
instruction by instruction: each fetch may set the A bit of a page table entry, which the guest can read.
-/
namespace PgLinux

open Prog

/-- What the guest sees. -/
structure Observed (c d : Cpu) : Prop where
  pc : c.pc = d.pc
  x : c.x = d.x
  f : c.f = d.f
  ram : c.bus.mem.ram = d.bus.mem.ram
  instret : c.instret = d.instret

theorem Observed.symm {c d : Cpu} (h : Observed c d) : Observed d c :=
  ⟨h.pc.symm, h.x.symm, h.f.symm, h.ram.symm, h.instret.symm⟩

theorem Observed.trans {c d e : Cpu} (h : Observed c d) (h' : Observed d e) : Observed c e :=
  ⟨h.pc.trans h'.pc, h.x.trans h'.x, h.f.trans h'.f, h.ram.trans h'.ram, h.instret.trans h'.instret⟩

/-! ## Where a call goes on -/

/-- Loads, stores and floating-point instructions. -/
def callOpcodes : List Nat := [0x03, 0x23, 0x07, 0x27, 0x43, 0x47, 0x4B, 0x4F, 0x53]

theorem opcode_of_jump {insn : U32} {pc : U64} {compressed : Bool} (h : (emitInsn insn pc compressed).epilogue_jump = true) :
    (opcode insn).toNat ∈ callOpcodes := by
  have h32 : (emitOp32 insn).epilogue_jump = false := by
    unfold emitOp32
    dsimp only
    split <;> rfl
  have himm32 : (emitOpImm32 insn).epilogue_jump = false := by
    unfold emitOpImm32
    dsimp only
    split <;> rfl
  have hbranch : (emitBranch insn pc compressed).epilogue_jump = false := by
    unfold emitBranch
    dsimp only
    split <;> rfl
  unfold emitInsn at h
  split at h
  case h_3 => exact absurd (h32.symm.trans h) (by decide)
  case h_4 => exact absurd (himm32.symm.trans h) (by decide)
  case h_9 => exact absurd (hbranch.symm.trans h) (by decide)
  all_goals first
    | (next hop =>
        rw [hop]
        decide)
    | cases h

theorem JitSrc.opcode_of_calls {i : JitSrc} (h : i.calls = true) : (opcode i.insn).toNat ∈ callOpcodes := by
  unfold JitSrc.calls JitSrc.emitted emitWord at h
  unfold JitSrc.insn
  dsimp only at h
  generalize (if isCompressed i.word then sljitUncompress (i.word.setWidth 16) else i.word) = insn at h ⊢
  split at h
  · cases h
  · split at h
    · cases h
    · exact opcode_of_jump h

/-- **Both decoders expand a call alike.** -/
theorem JitSrc.expand_of_calls {i : JitSrc} (h : i.calls = true) {insn : U32} {d e : Cpu}
    (he : expandInsn i.word d = .ok insn e) : insn = i.insn := by
  have hop := JitSrc.opcode_of_calls h
  unfold expandInsn at he
  unfold JitSrc.insn at hop ⊢
  by_cases hc : isCompressed i.word = true
  · rw [if_pos hc] at he hop ⊢
    unfold sljitUncompress at hop ⊢
    cases hj : uncompressWith (fun off => if off &&& 0x100 ≠ 0 then off - 0x200 else off) (i.word.setWidth 16) with
    | none =>
      rw [hj] at hop
      exact absurd hop (by decide)
    | some insn' =>
      rw [hj] at hop
      cases hi : rv64Uncompress (i.word.setWidth 16) with
      | none =>
        rw [hi] at he
        cases he
      | some exp =>
        rw [hi] at he
        cases he
        rcases uncompressWith_eq hi hj with rfl | hbranch
        · rfl
        · have hop' : (opcode insn').toNat ∈ callOpcodes := hop
          rw [hbranch] at hop'
          exact absurd hop' (by decide)
  · rw [if_neg hc] at he ⊢
    cases he
    rfl

section Next

variable [NetDevice] {insn : U32} {pc next n : U64} {c e : Cpu}

variable [HostFp]

theorem execInsn_next (hop : (opcode insn).toNat ∈ callOpcodes) (h : execInsn insn pc next c = .ok n e) : n = next := by
  unfold execInsn at h
  rw [get_bind_apply] at h
  simp only [callOpcodes, List.mem_cons, List.not_mem_nil, or_false] at hop
  rcases hop with hop | hop | hop | hop | hop | hop | hop | hop | hop <;> simp only [hop] at h
  · exact execLoad_next h
  · exact execStore_next h
  all_goals exact execFp_next h

variable {i : JitSrc}

/-- **A call that completes goes on behind it.** -/
theorem JitSrc.perform_next (hcall : i.calls = true) (h : i.perform c = .ok () e) : e.pc = i.next := by
  obtain ⟨insn, d, hexp, hrest⟩ := bind_eq_ok.1 h
  obtain ⟨n, d', hexec, hretire⟩ := bind_eq_ok.1 hrest
  obtain rfl := JitSrc.expand_of_calls hcall hexp
  obtain rfl := execInsn_next (JitSrc.opcode_of_calls hcall) hexec
  cases hretire
  rfl

/-- A step that fetches the instruction is the instruction on the machine after the fetch. -/
theorem JitSrc.At.step (hat : i.At c) : ∃ d, stepBody c = i.perform d := by
  obtain ⟨d, hfetch⟩ := hat.fetch
  refine ⟨logInsn i.word d, ?_⟩
  rw [stepBody_eq, hfetch, hat.pc]
  rfl

end Next

/-! ## Steps through a block -/

section Bookkeeping

variable [NetDevice] [HostFp]

/-- When `jit_exec` answers n > 0, the machine is where n steps would be. -/
def BlockAgrees (undef : U64) (c : Cpu) : Prop :=
  0 < (jitExec undef c).1 → Observed (jitExec undef c).2 (stepTimes (jitExec undef c).1.toNat c)

/-- The steps of the interpreter fetch the instructions one after the other, and complete. -/
def StepsThrough : List JitSrc → Cpu → Prop
  | [], _ => True
  | i :: src, d => i.At d ∧ d.Retires ∧ StepsThrough src (rv64Step d)

theorem StepsThrough.last {src : List JitSrc} {i : JitSrc} (hlast : src.getLast? = some i) (hcall : i.calls = true) {d : Cpu}
    (h : StepsThrough src d) : (stepTimes src.length d).pc = i.next := by
  induction src generalizing d with
  | nil => cases hlast
  | cons o src ih =>
    obtain ⟨hat, hret, hrest⟩ := h
    cases src with
    | nil =>
      cases hlast
      obtain ⟨d', hstep⟩ := hat.step
      exact JitSrc.perform_next hcall (hstep.symm.trans hret.2)
    | cons o' src =>
      rw [List.getLast?_cons_cons] at hlast
      exact ih hlast hrest

theorem StepsThrough.performs {src : List JitSrc} {d : Cpu} (h : StepsThrough src d) :
    performAll (fun _ => stepBody) src d = .ok () (stepTimes src.length d) := by
  induction src generalizing d with
  | nil => rfl
  | cons o src ih =>
    obtain ⟨-, hret, hrest⟩ := h
    exact bind_eq_ok.2 ⟨(), _, hret.2, ih hrest⟩

/-! ## Blocks -/

/-- The machine `c` at a block of guest code: its single instructions keep `Sim`, and none of them traps, neither in the
block, where they lead the machine that the compiler leaves to `e` without a fetch, nor in the steps from `c`. -/
structure Guest (Sim : Cpu → Cpu → Prop) (j : JitState) (c e : Cpu) : Prop where
  jit : c.jit = some j
  enabled : j.enabled = true
  seen : ∀ c d, Sim c d → Observed c d
  completes : ∀ i ∈ (lookupBlock j c).1.src, Completes JitSrc.perform Sim i
  made : (lookupBlock j c).1.Made c.pc
  same : Sim (lookupBlock j c).2 (lookupBlock j c).2
  at_pc : (lookupBlock j c).2.pc = c.pc
  performs : performAll JitSrc.perform (lookupBlock j c).1.src (lookupBlock j c).2 = .ok () e
  steps : StepsThrough (lookupBlock j c).1.src c

variable {Sim : Cpu → Cpu → Prop} {j : JitState} {c e : Cpu}

/-- Fetching does not show: the instructions of the block alone, on the machine that the compiler leaves, do what the
interpreter does, which fetches each of them. -/
def FetchesUnseen (j : JitState) (c e : Cpu) : Prop := Observed e (stepTimes (lookupBlock j c).1.src.length c)

/-- **A block that runs to its end** counts its instructions and does what they do, up to its 61st call. -/
theorem jitExec_completes (undef : U64) (hg : Guest Sim j c e) :
    (jitExec undef c).1.toNat = (lookupBlock j c).1.src.length ∧
      ((lookupBlock j c).1.src.countP JitSrc.calls ≤ 60 → Observed (jitExec undef c).2 e) ∧
      (60 < (lookupBlock j c).1.src.countP JitSrc.calls → ∃ i, (lookupBlock j c).1.src.getLast? = some i ∧
        i.calls = true ∧ (jitExec undef c).2.pc = i.va) := by
  obtain ⟨hlen, ⟨hnil, hnone⟩ | ⟨ops, hlaid, hhost⟩⟩ := hg.made.code
  · have hexec : jitExec undef c = (0, (lookupBlock j c).2) := by
      unfold jitExec
      rw [hg.jit]
      dsimp only
      rw [if_neg (by rw [hg.enabled]; decide), hnone]
    have hperforms := hg.performs
    rw [hnil] at hperforms
    cases hperforms
    rw [hexec, hnil]
    exact ⟨rfl, fun _ => hg.seen _ _ hg.same, fun h => absurd h (by simp)⟩
  · have hentry := blockEntry_machine undef (lookupBlock j c).2
    obtain ⟨s', hrun, hcount, hle, hlt⟩ := hlaid.completes (fun _ _ h => (hg.seen _ _ h).pc) hg.completes
      (s := blockEntry undef (lookupBlock j c).2) (by rw [hentry]; exact hg.same) hg.at_pc hg.performs (by omega)
    rw [jitExec_run hg.jit hg.enabled hhost hrun (.inl rfl)]
    rw [Nat.zero_add] at hle hlt
    refine ⟨?_, fun h => hg.seen _ _ (hle h), hlt⟩
    have hzero : (blockEntry undef (lookupBlock j c).2).regs .S1 = 0 := rfl
    show (s'.regs .S1).toNat = _
    rw [hcount, hzero, show (0 : U64) + BitVec.ofNat 64 (lookupBlock j c).1.src.length =
      BitVec.ofNat 64 (lookupBlock j c).1.src.length from BitVec.zero_add _, BitVec.toNat_ofNat]
    omega

theorem answers_iff (undef : U64) (hg : Guest Sim j c e) : 0 < (jitExec undef c).1 ↔ (lookupBlock j c).1.src ≠ [] := by
  rw [BitVec.lt_def, (jitExec_completes undef hg).1]
  exact List.length_pos_iff

/-- **A full block is not where its steps are.** -/
theorem not_blockAgrees (undef : U64) (hg : Guest Sim j c e) (hfull : 60 < (lookupBlock j c).1.src.countP JitSrc.calls) :
    ¬ BlockAgrees undef c := by
  intro hagree
  obtain ⟨hcount, -, hend⟩ := jitExec_completes undef hg
  obtain ⟨i, hlast, hcall, hva⟩ := hend hfull
  have hne : (lookupBlock j c).1.src ≠ [] := fun hnil => by
    rw [hnil] at hlast
    cases hlast
  have hpc := (hagree ((answers_iff undef hg).2 hne)).pc
  rw [hcount, hva, StepsThrough.last hlast hcall hg.steps] at hpc
  exact i.next_ne hpc.symm

theorem blockAgrees_iff_unseen {undef : U64} (hg : Guest Sim j c e) : BlockAgrees undef c ↔
    ((lookupBlock j c).1.src ≠ [] → (lookupBlock j c).1.src.countP JitSrc.calls ≤ 60 ∧ FetchesUnseen j c e) := by
  obtain ⟨hcount, hsame, -⟩ := jitExec_completes undef hg
  constructor
  · intro hagree hne
    have hle : (lookupBlock j c).1.src.countP JitSrc.calls ≤ 60 := by
      by_contra hfull
      exact not_blockAgrees undef hg (Nat.lt_of_not_le hfull) hagree
    have hobs := hagree ((answers_iff undef hg).2 hne)
    rw [hcount] at hobs
    exact ⟨hle, (hsame hle).symm.trans hobs⟩
  · intro hcond hpos
    obtain ⟨hle, hunseen⟩ := hcond ((answers_iff undef hg).1 hpos)
    rw [hcount]
    exact (hsame hle).trans hunseen

/-! ## Code whose fetches do not show -/

/-- The guest's code, and a relation that fetching it keeps: neither a fetch of a step nor those of the compiler, which
fetches ahead, change what is related, and the cached blocks hold that code. -/
structure FetchesHidden (code : U64 → Option U32) (Sim : Cpu → Cpu → Prop) : Prop where
  running : ∀ c d w, Sim c d → code d.pc = some w → c.halted = false
  block : ∀ c d w, Sim c d → code d.pc = some w → ∃ c', fetchInsn c.pc (checkBreak c) = .ok w c' ∧ Sim (logInsn w c') d
  step : ∀ c d w, Sim c d → code d.pc = some w → ∃ d', fetchInsn d.pc (checkBreak d) = .ok w d' ∧ Sim c (logInsn w d')
  lookup : ∀ c d w j, Sim c d → code d.pc = some w → c.jit = some j → Sim (lookupBlock j c).2 d ∧
    (lookupBlock j c).1.Made d.pc ∧ ∀ i ∈ (lookupBlock j c).1.src, code i.va = some i.word

variable {code : U64 → Option U32} {i : JitSrc}

/-- A step that fetches the instruction performs it on a machine that is related as well. -/
theorem FetchesHidden.fetched (hf : FetchesHidden code Sim) (hpcs : ∀ c d, Sim c d → c.pc = d.pc) {c d : Cpu} (hsim : Sim c d)
    (hw : code i.va = some i.word) (hpc : d.pc = i.va) : ∃ d', stepBody d = i.perform d' ∧ Sim c d' ∧ d'.pc = i.va := by
  obtain ⟨d', hfetch, hsim'⟩ := hf.step c d i.word hsim (by rw [hpc]; exact hw)
  refine ⟨logInsn i.word d', ?_, hsim', ?_⟩
  · rw [stepBody_eq, hfetch, hpc]
    rfl
  · rw [← hpcs _ _ hsim', hpcs _ _ hsim, hpc]

/-- A block then keeps the relation to machines that step. -/
theorem Completes.stepped (h : Completes JitSrc.perform Sim i) (hf : FetchesHidden code Sim) (hpcs : ∀ c d, Sim c d → c.pc = d.pc)
    (hw : code i.va = some i.word) : Completes (fun _ => stepBody) Sim i := by
  intro s d e hsim hpc hrun
  obtain ⟨d', hstep, hsim', hpc'⟩ := hf.fetched hpcs hsim hw hpc
  exact h s d' e hsim' hpc' (hstep.symm.trans hrun)

/-- **Hidden fetches are unseen.** -/
theorem fetchesUnseen_of_hidden (hg : Guest Sim j c e) (hf : FetchesHidden code Sim) (hsim : Sim c c) {w : U32}
    (hw : code c.pc = some w) (hle : (lookupBlock j c).1.src.countP JitSrc.calls ≤ 60) : FetchesUnseen j c e := by
  have hpcs : ∀ c d, Sim c d → c.pc = d.pc := fun _ _ h => (hg.seen _ _ h).pc
  obtain ⟨hlookup, -, hcode⟩ := hf.lookup c c w j hsim hw hg.jit
  obtain ⟨-, ⟨hnil, -⟩ | ⟨ops, hlaid, -⟩⟩ := hg.made.code
  · have hperforms := hg.performs
    rw [hnil] at hperforms
    cases hperforms
    unfold FetchesUnseen
    rw [hnil]
    exact hg.seen _ _ hlookup
  · have hentry := blockEntry_machine 0 (lookupBlock j c).2
    obtain ⟨s, hrun, -, hown, -⟩ := hlaid.completes hpcs hg.completes (s := blockEntry 0 (lookupBlock j c).2)
      (by rw [hentry]; exact hg.same) hg.at_pc hg.performs (by omega)
    obtain ⟨s', hrun', -, hsteps, -⟩ := hlaid.completes hpcs
      (fun i hi => (hg.completes i hi).stepped hf hpcs (hcode i hi)) (s := blockEntry 0 (lookupBlock j c).2)
      (by rw [hentry]; exact hlookup) rfl hg.steps.performs (by omega)
    obtain rfl : s = s' := congrArg Prod.snd (hrun.symm.trans hrun')
    rw [Nat.zero_add] at hown hsteps
    exact (hg.seen _ _ (hown hle)).symm.trans (hg.seen _ _ (hsteps hle))

/-- **A block does what its instructions do one by one exactly when it holds at most 60 loads, stores and floating-point
instructions and fetching does not show**, or when it holds no instruction at all; where the fetches are hidden, the number
of calls decides alone. -/
theorem blockAgrees_iff {undef : U64} (hg : Guest Sim j c e) :
    (BlockAgrees undef c ↔
      ((lookupBlock j c).1.src ≠ [] → (lookupBlock j c).1.src.countP JitSrc.calls ≤ 60 ∧ FetchesUnseen j c e)) ∧
      ∀ code w, FetchesHidden code Sim → Sim c c → code c.pc = some w →
        (BlockAgrees undef c ↔ (lookupBlock j c).1.src.countP JitSrc.calls ≤ 60) := by
  refine ⟨blockAgrees_iff_unseen hg, fun code w hf hsim hw => ⟨fun hagree => ?_, fun hle => ?_⟩⟩
  · by_contra hfull
    exact not_blockAgrees undef hg (Nat.lt_of_not_le hfull) hagree
  · exact (blockAgrees_iff_unseen hg).2 fun _ => ⟨hle, fetchesUnseen_of_hidden hg hf hsim hw hle⟩

end Bookkeeping

/-! ## Flat code -/

theorem Laid.supported {jumps : Nat} {pc : U64} {src : List JitSrc} {ops : List SljitOp} (h : Laid jumps pc src ops) :
    ∀ i ∈ src, i.emitted.supported = true := by
  induction h with
  | stop => simp
  | jump i hs => simpa using hs
  | limit i hs => simpa using hs
  | next i hs _ _ _ ih => exact List.forall_mem_cons.2 ⟨hs, ih⟩

section Flat

variable [NetDevice] {ram : Mem} {size : U64} {code : U64 → Option U32} {c d : Cpu}

theorem Flat.observed (c d : Cpu) (h : Flat ram size code c d) : Observed c d := by
  obtain ⟨g, j, y, rfl⟩ := h.alike
  exact ⟨rfl, rfl, rfl, rfl, rfl⟩

theorem Flat.left (h : Flat ram size code c d) : Flat ram size code c c :=
  ⟨refl_of Alike c, h.machine.of_alike h.alike.symm, h.cached⟩

/-- **The fetches of flat code do not show.** -/
theorem flat_hidden (hc : FlatCode ram size code) : FetchesHidden code (Flat ram size code) where
  running _ _ _ h _ := h.left.machine.running
  block c d w h hw := by
    refine ⟨_, h.left.machine.fetch hc (by rw [h.pc]; exact hw), ?_⟩
    have hlogged := (h.left.logged w).machine
    refine ⟨trans_of Alike (logged_alike w c).symm h.alike, h.machine, fun j hj => h.cached j ?_⟩
    unfold logInsn checkBreak at hj
    split at hj <;> exact hj
  step _ d w h hw := ⟨_, h.machine.fetch hc hw, h.logged w⟩
  lookup _ _ _ _ h hw hj := h.lookup hc hw hj

variable [HostFp] {i : JitSrc}

/-- The instruction traps on no flat machine, and goes on behind it. -/
def Plain (ram : Mem) (size : U64) (i : JitSrc) : Prop :=
  ∀ d, FlatMachine ram size d → ∃ e, i.perform d = .ok () e ∧ e.pc = i.next ∧ FlatMachine ram size e

theorem plain_int (hint : IntOpcode i.word) (hval : ∀ x, intValue i.word i.va x ≠ none) : Plain ram size i := by
  intro d hd
  obtain ⟨v, hv⟩ := Option.ne_none_iff_exists'.1 (hval d.x)
  refine ⟨retire i.next (d.wr (rd i.word) v), ?_, rfl, hd.place, hd.ram, hd.size, hd.running, rfl⟩
  rw [JitSrc.perform_int hint, hv]

theorem plain_move (hfull : isCompressed i.word = false) (hmove : IsFpMove i.word) : Plain ram size i := fun _ hd =>
  ⟨_, JitSrc.perform_move hfull hmove _, rfl, hd.place, hd.ram, hd.size, hd.running, hd.zero⟩

theorem plain_performs {src : List JitSrc} (hplain : ∀ i ∈ src, Plain ram size i) {d : Cpu} (hd : FlatMachine ram size d) :
    ∃ e, performAll JitSrc.perform src d = .ok () e := by
  induction src generalizing d with
  | nil => exact ⟨d, rfl⟩
  | cons i src ih =>
    obtain ⟨e, hone, -, he⟩ := hplain i List.mem_cons_self d hd
    obtain ⟨e', hrest⟩ := ih (fun o ho => hplain o (List.mem_cons_of_mem _ ho)) he
    exact ⟨e', bind_eq_ok.2 ⟨(), e, hone, hrest⟩⟩

/-- **The step at a plain instruction performs it.** -/
theorem Plain.step (hplain : Plain ram size i) (hc : FlatCode ram size code) (hw : code i.va = some i.word)
    (hd : FlatMachine ram size d) (hpc : d.pc = i.va) :
    i.At d ∧ d.Retires ∧ (rv64Step d).pc = i.next ∧ FlatMachine ram size (rv64Step d) := by
  have hcode : code d.pc = some i.word := by rw [hpc, hw]
  obtain ⟨e, hone, hnext, he⟩ := hplain _ (hd.of_alike (logged_alike i.word d))
  have hstep := hd.step hc hcode
  rw [hpc, hone] at hstep
  obtain ⟨hret, hrun⟩ := retires_of hd.running hstep
  rw [hrun]
  exact ⟨⟨hpc, _, hd.fetch hc hcode⟩, hret, hnext, he⟩

theorem Laid.stepsThrough {jumps : Nat} {pc : U64} {src : List JitSrc} {ops : List SljitOp} (h : Laid jumps pc src ops)
    (hc : FlatCode ram size code) (hcode : ∀ i ∈ src, code i.va = some i.word) (hplain : ∀ i ∈ src, Plain ram size i)
    (hd : FlatMachine ram size d) (hpc : d.pc = pc) : StepsThrough src d := by
  induction h generalizing d with
  | stop => exact trivial
  | jump i =>
    obtain ⟨hat, hret, -⟩ := (hplain i List.mem_cons_self).step hc (hcode i List.mem_cons_self) hd hpc
    exact ⟨hat, hret, trivial⟩
  | limit i =>
    obtain ⟨hat, hret, -⟩ := (hplain i List.mem_cons_self).step hc (hcode i List.mem_cons_self) hd hpc
    exact ⟨hat, hret, trivial⟩
  | next i _ _ _ _ ih =>
    obtain ⟨hat, hret, hnext, hd'⟩ := (hplain i List.mem_cons_self).step hc (hcode i List.mem_cons_self) hd hpc
    exact ⟨hat, hret, ih (fun o ho => hcode o (List.mem_cons_of_mem _ ho))
      (fun o ho => hplain o (List.mem_cons_of_mem _ ho)) hd' hnext⟩

/-- **A machine at flat code of plain words is at a block of guest code.** -/
theorem flat_guest (hc : FlatCode ram size code) (hkind : ∀ i : JitSrc, code i.va = some i.word → i.emitted.supported = true →
    Plain ram size i ∧ Completes JitSrc.perform (Flat ram size code) i) {j : JitState} (hjit : c.jit = some j)
    (hen : j.enabled = true) (hsim : Flat ram size code c c) {w : U32} (hw : code c.pc = some w) :
    ∃ e, Guest (Flat ram size code) j c e := by
  obtain ⟨hlookup, hmade, hcode⟩ := hsim.lookup hc hw hjit
  have hsup : ∀ i ∈ (lookupBlock j c).1.src, i.emitted.supported = true := by
    obtain ⟨-, ⟨hnil, -⟩ | ⟨ops, hlaid, -⟩⟩ := hmade.code
    · rw [hnil]
      simp
    · exact hlaid.supported
  have hplain : ∀ i ∈ (lookupBlock j c).1.src, Plain ram size i := fun i hi => (hkind i (hcode i hi) (hsup i hi)).1
  obtain ⟨e, he⟩ := plain_performs hplain hlookup.left.machine
  have hsteps : StepsThrough (lookupBlock j c).1.src c := by
    obtain ⟨-, ⟨hnil, -⟩ | ⟨ops, hlaid, -⟩⟩ := hmade.code
    · rw [hnil]
      exact trivial
    · exact hlaid.stepsThrough hc hcode hplain hsim.machine rfl
  exact ⟨e, hjit, hen, Flat.observed, fun i hi => (hkind i (hcode i hi) (hsup i hi)).2, hmade, hlookup.left, hlookup.pc, he,
    hsteps⟩

end Flat

/-! ## Programs -/

section Programs

/-- `addi x1, x1, 1` and `ecall`. -/
def addProgram : List U32 := [0x00108093] ++ [0x00000073]

/-- As many moves to `f0` as a block can hold, and `ecall`. -/
def moveProgram : List U32 := List.replicate 61 0xF2000053 ++ [0x00000073]

theorem addProgram_flat : FlatCode (textRam addProgram) 0x1000 (textCode addProgram) :=
  flatCode_ecall (by decide) fun w hw => by
    obtain rfl := List.mem_singleton.1 hw
    decide

theorem moveProgram_flat : FlatCode (textRam moveProgram) 0x1000 (textCode moveProgram) :=
  flatCode_ecall (by simp) fun w hw => by
    obtain rfl := List.eq_of_mem_replicate hw
    decide

theorem moveProgram_get {k : Nat} (hk : k < 61) : moveProgram[k]? = some 0xF2000053 := by
  unfold moveProgram
  rw [List.getElem?_append_left (by simpa using hk), List.getElem?_replicate, if_pos hk]

/-- What a block holds of a program before an ECALL. -/
theorem textCode_supported {us : List U32} {i : JitSrc} (hi : textCode (us ++ [0x00000073]) i.va = some i.word)
    (hsup : i.emitted.supported = true) : i.word ∈ us := by
  obtain ⟨k, hk, -⟩ := textCode_some hi
  rcases List.mem_append.1 (List.mem_of_getElem? hk) with hw | hw
  · exact hw
  · have hecall := ecall_unsupported i.va
    rw [← List.mem_singleton.1 hw] at hecall
    exact absurd hsup (by rw [hecall]; decide)

theorem isFpMove_word : IsFpMove 0xF2000053 := ⟨rfl, rfl⟩

variable [NetDevice]

/-- A block of one floating-point word over and over fills up. -/
theorem compile_moves {ram : Mem} {size : U64} {code : U64 → Option U32} {c : Cpu} (h : FlatMachine ram size c)
    (hc : FlatCode ram size code) {w : U32} (hlong : isCompressed w = false)
    (hemit : ∀ pc, emitWord 0 w pc = emitFp w pc) : ∀ (m n : Nat) (k : Compile), m < n → m + k.num_epilogue_jumps = 60 →
    (∀ i ≤ m, code (k.pc + BitVec.ofNat 64 (4 * i)) = some w) →
    (compileLoop 0 n k c).1.src.length = k.src.length + m + 1 ∧
      (compileLoop 0 n k c).1.src.countP JitSrc.calls = k.src.countP JitSrc.calls + m + 1
  | m, 0, _, hlt, _, _ => absurd hlt (Nat.not_lt_zero m)
  | m, n + 1, k, hlt, hjumps, hw => by
    have h0 : code k.pc = some w := by simpa using hw 0 (Nat.zero_le _)
    have hcall : (JitSrc.mk k.pc w).calls = true := by
      unfold JitSrc.calls JitSrc.emitted
      rw [hemit]
      rfl
    have hsrc : (k.take w (emitFp w k.pc)).1.src = k.src ++ [⟨k.pc, w⟩] := rfl
    have hended := take_ended k w (emitFp w k.pc)
    rw [h.compile_next hc h0 (by rw [hemit]; rfl), hemit]
    cases m with
    | zero =>
      have hfull : (k.take w (emitFp w k.pc)).2 = true := by
        rw [hended]
        show decide (60 ≤ k.num_epilogue_jumps) = true
        rw [decide_eq_true_eq]
        omega
      rw [if_pos hfull, hsrc, List.length_append, List.countP_append, List.countP_singleton, hcall]
      exact ⟨rfl, rfl⟩
    | succ m =>
      have hroom : (k.take w (emitFp w k.pc)).2 = false := by
        rw [hended]
        show decide (60 ≤ k.num_epilogue_jumps) = false
        rw [decide_eq_false_iff_not]
        omega
      have hpc : (k.take w (emitFp w k.pc)).1.pc = k.pc + 4 := by
        show (if (k.take w (emitFp w k.pc)).2 then k.pc else k.pc + insnBytes (isCompressed w)) = _
        rw [hroom, hlong]
        rfl
      have hcount : (k.take w (emitFp w k.pc)).1.num_epilogue_jumps = k.num_epilogue_jumps + 1 := rfl
      obtain ⟨hlen, hcalls⟩ := compile_moves h hc hlong hemit m n (k.take w (emitFp w k.pc)).1 (by omega)
        (by rw [hcount]; omega) (fun l hl => by
          rw [hpc, add_four]
          exact hw (l + 1) (by omega))
      rw [hsrc, List.length_append] at hlen
      rw [hsrc, List.countP_append, List.countP_singleton, hcall] at hcalls
      rw [if_neg (by rw [hroom]; decide), hlen, hcalls]
      simp only [List.length_singleton, if_true]
      omega

/-- The block of the program at reset. -/
theorem lookupBlock_textCpu (ws : List U32) : (lookupBlock .init (textCpu ws)).1.src =
    (compileLoop 0 64 (.start ramBase) (textCpu ws)).1.src := by
  unfold lookupBlock
  dsimp only
  rw [if_pos (by rfl)]
  rfl

variable [HostFp]

theorem addProgram_guest : ∃ e, Guest (Flat (textRam addProgram) 0x1000 (textCode addProgram)) .init (textCpu addProgram) e := by
  have hfirst : textCode addProgram ramBase = some 0x00108093 := by decide
  refine flat_guest addProgram_flat (fun i hi hsup => ?_) rfl rfl (textCpu_flat _ _) hfirst
  have hw : i.word = 0x00108093 := List.mem_singleton.1 (textCode_supported hi hsup)
  have hint : IntOpcode i.word := by
    rw [hw]
    decide
  refine ⟨plain_int hint fun x hx => ?_, flat_int addProgram_flat hi hint (by rw [hw]; decide) hsup⟩
  rw [hw] at hx
  cases hx

theorem moveProgram_guest :
    ∃ e, Guest (Flat (textRam moveProgram) 0x1000 (textCode moveProgram)) .init (textCpu moveProgram) e := by
  have hfirst : textCode moveProgram ramBase = some 0xF2000053 := moveProgram_get (k := 0) (by omega)
  refine flat_guest moveProgram_flat (fun i hi hsup => ?_) rfl rfl (textCpu_flat _ _) hfirst
  have hw : i.word = 0xF2000053 := List.eq_of_mem_replicate (textCode_supported hi hsup)
  have hmove : IsFpMove i.word := by
    rw [hw]
    exact isFpMove_word
  exact ⟨plain_move (by rw [hw]; decide) hmove, flat_fpMove moveProgram_flat hi hmove⟩

end Programs

section Runs

local instance bookkeepingNet : NetDevice := NetDevice.silent
local instance bookkeepingFp : HostFp := HostFp.zero

/-- The code of `addi x1, x1, 1`. -/
theorem addi_emitted (pc : U64) : emitWord 0 0x00108093 pc = emitOpImm 0x00108093 := by
  have hlong : isCompressed 0x00108093 = false := by decide
  have hop : (opcode 0x00108093).toNat = 0x13 := rfl
  refine (JitSrc.emitted_full (i := ⟨pc, 0x00108093⟩) hlong).trans ?_
  unfold emitInsn
  simp only [hop]

theorem addProgram_block : (lookupBlock .init (textCpu addProgram)).1.src = [⟨ramBase, 0x00108093⟩] := by
  have hflat := (textCpu_flat addProgram (textCode addProgram)).machine
  have hfirst : textCode addProgram ramBase = some 0x00108093 := by decide
  have hsecond : textCode addProgram (ramBase + 4) = some 0x00000073 := by decide
  rw [lookupBlock_textCpu, hflat.compile_next addProgram_flat hfirst (by rw [addi_emitted]; rfl), addi_emitted, if_neg (by decide)]
  exact hflat.compile_stop addProgram_flat hsecond (ecall_unsupported (ramBase + 4))

/-- The block of one `addi`. -/
theorem blockAgrees_add : BlockAgrees 0 (textCpu addProgram) := by
  have hfirst : textCode addProgram (textCpu addProgram).pc = some 0x00108093 := by decide
  have hcalls : (lookupBlock .init (textCpu addProgram)).1.src.countP JitSrc.calls ≤ 60 := by
    rw [addProgram_block]
    exact Nat.le_trans List.countP_le_length (by decide)
  obtain ⟨e, hg⟩ := addProgram_guest
  exact ((blockAgrees_iff hg).2 _ _ (flat_hidden addProgram_flat) (textCpu_flat _ _) hfirst).2 hcalls

/-- A block of 61 moves: the last one is counted, and the pc left at it. -/
theorem not_blockAgrees_moves :
    (∃ e, Guest (Flat (textRam moveProgram) 0x1000 (textCode moveProgram)) .init (textCpu moveProgram) e) ∧
      ¬ BlockAgrees 0 (textCpu moveProgram) := by
  have hflat := (textCpu_flat moveProgram (textCode moveProgram)).machine
  have hcode : ∀ k < 61, textCode moveProgram (ramBase + BitVec.ofNat 64 (4 * k)) = some 0xF2000053 := fun k hk => by
    rw [textCode_at (by omega), moveProgram_get hk]
  have hlong : isCompressed 0xF2000053 = false := by decide
  have hemit : ∀ pc, emitWord 0 0xF2000053 pc = emitFp 0xF2000053 pc := by
    intro pc
    have hop : (opcode 0xF2000053).toNat = 0x53 := rfl
    refine (JitSrc.emitted_full (i := ⟨pc, 0xF2000053⟩) hlong).trans ?_
    unfold emitInsn
    simp only [hop]
  obtain ⟨-, hcalls⟩ := compile_moves hflat moveProgram_flat hlong hemit 60 64 (.start ramBase) (by omega) rfl
    fun k hk => hcode k (by omega)
  rw [← lookupBlock_textCpu] at hcalls
  obtain ⟨e, hg⟩ := moveProgram_guest
  refine ⟨⟨e, hg⟩, not_blockAgrees 0 hg ?_⟩
  rw [hcalls]
  decide

end Runs

/-! ## A fetch that shows -/

section Ahead

local instance aheadNet : NetDevice := NetDevice.silent
local instance aheadFp : HostFp := HostFp.zero

/-- Two pages of 1 GiB, the second of which nothing has accessed; `ld x1, 0(x2)` at the end of the first one and `w` at the
start of the second, before an `ecall`. -/
def aheadRam (w : U32) : Mem :=
  ((((Mem.write (fun _ => 0) 0x1000 8 0x200000CF).write 0x1008 8 0x2000000B).write 0x3FFFFFFC 4 0x00013083).write 0 4
    (w.setWidth 64)).write 4 4 0x00000073

/-- A supervisor at the load, with the address of the second page table entry in `x2`, and one that is not mapped in `x4`. -/
def aheadCpu (w : U32) : Cpu :=
  let c := rv64Init (aheadRam w) 0x40000000
  { c with
    priv := privS
    pc := 0x3FFFFFFC
    x := setAt (setAt c.x 2 0x1008) 4 0x80000000
    csr := { c.csr with satp := 8 <<< 60 ||| 0x80001 } }

/-- The compiler fetches the `ecall` behind the page, and the load sees the A bit that this sets. -/
example : ¬ BlockAgrees 0 (aheadCpu 0x00000073) := by
  intro h
  have hx := congrFun (h (by decide +kernel)).x 1
  revert hx
  decide +kernel

end Ahead

end PgLinux
