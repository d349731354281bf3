import PgLinux.Arm64Agreement
import PgLinux.Arm64Returns
import PgLinux.Lib.Commutes
/-!
# Arm64Interpreter — compiled blocks and the interpreter (`rv64_jit.c`, `rv64_step`)

A block writes the pc only before a load or a store, at a jump and at its end, and adds to the counters at its end.  But for
these it goes with the interpreter, as long as each inline access is one that the C functions would have made and no word is
one that the compiler reads otherwise.
-/
namespace PgLinux

open Prog

/-! ## Accesses do not see the counters -/

/-- The CPU with other counters. -/
def Cpu.setCounters (cycle instret : U64) (c : Cpu) : Cpu := { c with cycle := cycle, instret := instret }

section Counters

variable {cy ins : U64}

theorem commutes_busLoadM (pa : U64) (size : Nat) : Commutes (Cpu.setCounters cy ins) (busLoadM pa size) := fun _ => rfl

theorem commutes_readPte (a : U64) : Commutes (Cpu.setCounters cy ins) (readPte a) :=
  commutes_get_bind (fun _ => commutes_ite (commutes_pure _) (commutes_busLoadM a 8)) fun _ => rfl

variable [NetDevice]

theorem commutes_busStoreM (pa : U64) (size : Nat) (val : U64) : Commutes (Cpu.setCounters cy ins) (busStoreM pa size val) :=
  commutes_modify fun _ => rfl

theorem commutes_walkLeaf (va : U64) (access : AccessType) (level : Nat) (a pte : U64) :
    Commutes (Cpu.setCounters cy ins) (walkLeaf va access level a pte) := by
  have hrest : Commutes (Cpu.setCounters cy ins) (do
      modify fun c => { c with tlb := setAt c.tlb (tlbIndex va) (leafEntry c.ram_size va level pte (withAD pte access)) }
      return leafPa level pte va : Access U64) :=
    commutes_bind (commutes_modify fun _ => rfl) fun _ => commutes_pure _
  unfold walkLeaf
  dsimp only
  split
  · exact commutes_bind (commutes_busStoreM a 8 _) fun _ => hrest
  · exact hrest

theorem commutes_walk (va : U64) (access : AccessType) : ∀ (n : Nat) (ptAddr : U64),
    Commutes (Cpu.setCounters cy ins) (walk va access n ptAddr)
  | 0, _ => commutes_throw _
  | n + 1, ptAddr => by
    unfold walk
    dsimp only
    refine commutes_bind (commutes_readPte _) fun pte => ?_
    split
    · exact commutes_throw _
    · refine commutes_bind (commutes_pure _) fun _ => commutes_ite ?_ (commutes_walk va access n _)
      exact commutes_get_bind (fun c => commutes_ite (commutes_walkLeaf va access n _ _) (commutes_throw _)) fun _ => rfl

theorem commutes_rv64Translate (va : U64) (access : AccessType) :
    Commutes (Cpu.setCounters cy ins) (rv64Translate va access) := by
  unfold rv64Translate
  refine commutes_get_bind (fun c => commutes_ite (commutes_pure _) (commutes_ite (commutes_pure _) ?_)) fun _ => rfl
  split
  · exact commutes_pure _
  · exact commutes_walk va access 3 _

theorem commutes_loadBytes (va : U64) (access : AccessType) : ∀ (n i : Nat) (r : U64),
    Commutes (Cpu.setCounters cy ins) (loadBytes va access n i r)
  | 0, _, _ => commutes_pure _
  | n + 1, i, _ => commutes_bind (commutes_rv64Translate _ _) fun pa => commutes_bind (commutes_busLoadM pa 1) fun _ =>
      commutes_loadBytes va access n (i + 1) _

/-- **A load does not see the counters.** -/
theorem commutes_rv64CpuLoad (va : U64) (size : Nat) (access : AccessType) :
    Commutes (Cpu.setCounters cy ins) (rv64CpuLoad va size access) := by
  unfold rv64CpuLoad
  refine commutes_get_bind (fun c => ?_) fun _ => rfl
  split
  · exact commutes_pure _
  · exact commutes_ite (commutes_loadBytes va access size 0 0)
      (commutes_bind (commutes_rv64Translate va access) fun pa => commutes_busLoadM pa size)

theorem commutes_storeBytes (va val : U64) : ∀ n i : Nat, Commutes (Cpu.setCounters cy ins) (storeBytes va val n i)
  | 0, _ => commutes_pure _
  | n + 1, i => commutes_bind (commutes_rv64Translate _ _) fun pa => commutes_bind (commutes_busStoreM pa 1 _) fun _ =>
      commutes_storeBytes va val n (i + 1)

theorem commutes_storeAt (va : U64) (size : Nat) (val : U64) : Commutes (Cpu.setCounters cy ins) (storeAt va size val) := by
  have hmiss : Commutes (Cpu.setCounters cy ins) (if crossesPage va size then storeBytes va val size 0
      else do let pa ← rv64Translate va .write; busStoreM pa size val) :=
    commutes_ite (commutes_storeBytes va val size 0)
      (commutes_bind (commutes_rv64Translate va .write) fun pa => commutes_busStoreM pa size val)
  intro c
  cases h : storeFast c va size with
  | some p =>
    have h' : storeFast (c.setCounters cy ins) va size = some p := h
    rw [storeAt_hit h, storeAt_hit h']
    rfl
  | none =>
    have h' : storeFast (c.setCounters cy ins) va size = none := h
    rw [storeAt_miss h, storeAt_miss h']
    exact hmiss c

/-- **Nor does a store** that no watchpoint is to log. -/
theorem cpuStore_setCounters {c : Cpu} (hwatch : c.dbg.watch_active = false) (va : U64) (size : Nat) (val : U64) :
    cpuStore va size val (c.setCounters cy ins) = onState (Cpu.setCounters cy ins) (cpuStore va size val c) := by
  have hlog : ∀ d : Cpu, d.dbg.watch_active = false → logStore va size val d = d := by
    intro d hd
    unfold logStore
    rw [hd]
    rfl
  have hrun : ∀ d : Cpu, d.dbg.watch_active = false → cpuStore va size val d = storeAt va size val d := by
    intro d hd
    show storeAt va size val (logStore va size val d) = _
    rw [hlog d hd]
  refine (hrun (c.setCounters cy ins) hwatch).trans ?_
  rw [hrun c hwatch]
  exact commutes_storeAt va size val c

end Counters

namespace Arm64

open A64 (Finishes State)

/-! ## The interpreter on the instructions of a block -/

section Interpreter

variable [NetDevice] [HostFp]

/-- `rv64_step` from its `switch` on, for an instruction that is fetched and expanded. -/
def interpret (t : GuestInsn) : Exec Unit := do
  let c ← get
  let nextPc ← execInsn t.insn c.pc (c.pc + t.size)
  modify (retire nextPc)

def interpretAll : List GuestInsn → Exec Unit
  | [] => return ()
  | t :: ts => do
    interpret t
    interpretAll ts

/-- The compiled instruction `t` does at `c` what the interpreter does: it is no word that the compiler reads otherwise, an
inline access is one that the C function would make, and no store is to be logged. -/
structure Fits (t : GuestInsn) (c : Cpu) : Prop where
  word : ¬ ArmMismatch t.insn
  load : opcode t.insn = 0x03 → ∀ size doSext, loadSize (funct3 t.insn) = some (size, doSext) →
    let va := c.x (rs1 t.insn) + immI t.insn
    inlineHits false (c.tlbEntry va) va size = true → loadAllowed c (c.tlbEntry va) = true
  store : opcode t.insn = 0x23 → c.dbg.watch_active = false ∧ ∀ size, storeSize (funct3 t.insn) = some size →
    let va := c.x (rs1 t.insn) + immS t.insn
    inlineHits true (c.tlbEntry va) va size = true → storeAllowed c (c.tlbEntry va) = true
  branch : opcode t.insn = 0x63 → branchTaken (funct3 t.insn) (c.x (rs1 t.insn)) (c.x (rs2 t.insn)) ≠ none

/-- `n` more instructions on the counters. -/
def ticked (n : Nat) (c : Cpu) : Cpu := c.setCounters (c.cycle + BitVec.ofNat 64 n) (c.instret + BitVec.ofNat 64 n)

/-- The interpreter is where the block is, which has its pc and its counters still to write. -/
def Behind (r : Run) (c : Cpu) : Prop := ∃ pc, c = ticked r.count { r.cpu with pc := pc }

omit [NetDevice] [HostFp] in
theorem Behind.retire {r : Run} {c : Cpu} (h : Behind r c) (nextPc : U64) : Behind r.counted (retire nextPc c) := by
  obtain ⟨pc, rfl⟩ := h
  refine ⟨nextPc, ?_⟩
  have hnext : ∀ a : U64, a + BitVec.ofNat 64 r.count + 1 = a + BitVec.ofNat 64 (r.count + 1) := fun a => by
    rw [BitVec.ofNat_add, BitVec.add_assoc]
    rfl
  unfold PgLinux.retire ticked Cpu.setCounters Run.counted
  dsimp only
  rw [hnext, hnext]

omit [NetDevice] [HostFp] in
/-- What keeps the counters may be counted before it or behind it. -/
theorem onState_ticked {ε α : Type} {n : Nat} {c : Cpu} {out : EStateM.Result ε Cpu α} (h : AccessFrame c (final out)) :
    onState (Cpu.setCounters (c.cycle + BitVec.ofNat 64 n) (c.instret + BitVec.ofNat 64 n)) out = onState (ticked n) out := by
  cases out with
  | ok _ c' | error _ c' =>
    obtain ⟨tlb, bus, dbg, rfl⟩ : AccessFrame c c' := h
    rfl

omit [HostFp] in
theorem rv64CpuLoad_ticked (n : Nat) (va : U64) (size : Nat) (access : AccessType) (c : Cpu) :
    rv64CpuLoad va size access (ticked n c) = onState (ticked n) (rv64CpuLoad va size access c) :=
  (commutes_rv64CpuLoad va size access c).trans (onState_ticked (rv64CpuLoad_frame va size access c))

omit [HostFp] in
theorem cpuStore_ticked (n : Nat) {c : Cpu} (hwatch : c.dbg.watch_active = false) (va : U64) (size : Nat) (val : U64) :
    cpuStore va size val (ticked n c) = onState (ticked n) (cpuStore va size val c) :=
  (cpuStore_setCounters hwatch va size val).trans (onState_ticked (cpuStore_frame va size val c))

omit [NetDevice] [HostFp] in
/-- What is neither a load nor a store, and compiled: an integer instruction, a fence or a jump. -/
theorem plain_cases {insn : U32} (hv : verdict insn = .compiled) (hload : opcode insn ≠ 0x03) (hstore : opcode insn ≠ 0x23) :
    IntOpcode insn ∨ ((opcode insn).toNat = 0x0F ∧ funct3 insn ≠ 1) ∨ (opcode insn).toNat = 0x6F ∨
      (opcode insn).toNat = 0x67 := by
  have hl : (opcode insn).toNat ≠ 0x03 := fun e => hload (BitVec.eq_of_toNat_eq e)
  have hs : (opcode insn).toNat ≠ 0x23 := fun e => hstore (BitVec.eq_of_toNat_eq e)
  unfold verdict at hv
  unfold IntOpcode
  generalize (opcode insn).toNat = op at hl hs hv ⊢
  split at hv
  case h_4 => exact .inr (.inl ⟨rfl, of_decide_eq_true (ofBool_compiled hv)⟩)
  case h_5 => exact absurd rfl hl
  case h_6 => exact absurd rfl hs
  case h_10 => exact .inr (.inr (.inl rfl))
  case h_11 => exact .inr (.inr (.inr rfl))
  case h_12 => cases hv
  case h_13 => cases hv
  all_goals exact .inl (by decide)

/-- What the interpreter and the compiled code each make of an instruction: both go on, and the interpreter is then where it
is to be, or both stop, the code before the trap that the interpreter delivers. -/
def Together (t : GuestInsn) (r : Run) (out : EStateM.Result Unit Cpu U64) : Prop :=
  match armInsn t r with
  | .ok r' => ∃ nextPc c, out = .ok nextPc c ∧ Behind r' c ∧ r'.count = r.count ∧
      nextPc = if endsBlock t.insn then r'.cpu.pc else t.pc + t.size
  | .error r' => ∃ exc va, out = .error () (trap (ticked r.count r'.cpu) exc va) ∧ r'.count = r.count

variable {t : GuestInsn} {r : Run}

theorem together_plain (hv : verdict t.insn = .compiled) (hload : opcode t.insn ≠ 0x03) (hstore : opcode t.insn ≠ 0x23)
    (hm : ¬ ArmMismatch t.insn) (h0 : r.cpu.x 0 = 0) :
    Together t r (execInsn t.insn t.pc (t.pc + t.size) (ticked r.count { r.cpu with pc := t.pc })) := by
  have hl : (opcode t.insn).toNat ≠ 0x03 := fun e => hload (BitVec.eq_of_toNat_eq e)
  have hs : (opcode t.insn).toNat ≠ 0x23 := fun e => hstore (BitVec.eq_of_toNat_eq e)
  have hinsn : armInsn t r = .ok { r with cpu := armPlain t r.cpu } := by
    unfold armInsn
    split
    · next hop => exact absurd hop hl
    · next hop => exact absurd hop hs
    · rfl
  unfold Together
  rw [hinsn]
  dsimp only
  rcases plain_cases hv hload hstore with hi | ⟨hop, h3⟩ | hop | hop
  · have hplain : armPlain t r.cpu = r.cpu.wr (rd t.insn) ((armValue t.insn t.pc r.cpu.x).getD 0) := by
      unfold armPlain
      rcases hi.cases with hop | hop | hop | hop | hop | hop <;> simp only [hop]
    have hends : endsBlock t.insn = false := by
      unfold endsBlock
      rcases hi.cases with hop | hop | hop | hop | hop | hop <;> simp only [hop]
    obtain ⟨v, hint, harm⟩ := armValue_eq hi hm hv t.pc h0
    have hwr : r.cpu.wr (rd t.insn) ((armValue t.insn t.pc r.cpu.x).getD 0) = r.cpu.wr (rd t.insn) v := by
      by_cases hrd : rd t.insn = 0
      · rw [hrd, wr_zero h0, wr_zero h0]
      · rw [harm hrd, Option.getD_some]
    rw [execInsn_int hi, hends, hplain, hwr]
    refine ⟨t.pc + t.size, (ticked r.count { r.cpu with pc := t.pc }).wr (rd t.insn) v, ?_, ⟨t.pc, rfl⟩, rfl, rfl⟩
    rw [show intValue t.insn t.pc (ticked r.count { r.cpu with pc := t.pc }).x = some v from hint]
  · have hplain : armPlain t r.cpu = r.cpu := by
      unfold armPlain
      simp only [hop]
    have hends : endsBlock t.insn = false := by
      unfold endsBlock
      simp only [hop]
    rw [hplain, hends]
    refine ⟨t.pc + t.size, _, ?_, ⟨t.pc, rfl⟩, rfl, rfl⟩
    unfold execInsn
    rw [get_bind_apply]
    simp only [hop]
    rw [if_neg h3]
    rfl
  · have hplain : armPlain t r.cpu = { r.cpu.wr (rd t.insn) (t.pc + t.size) with pc := t.pc + immJ t.insn } := by
      unfold armPlain
      simp only [hop]
    have hends : endsBlock t.insn = true := by
      unfold endsBlock
      simp only [hop]
    rw [hplain, hends]
    refine ⟨t.pc + immJ t.insn, (ticked r.count { r.cpu with pc := t.pc }).wr (rd t.insn) (t.pc + t.size), ?_, ⟨t.pc, rfl⟩,
      rfl, rfl⟩
    unfold execInsn
    rw [get_bind_apply]
    simp only [hop]
    rfl
  · have hplain : armPlain t r.cpu =
        Cpu.wr { r.cpu with pc := (r.cpu.x (rs1 t.insn) + immI t.insn) &&& ~~~1 } (rd t.insn) (t.pc + t.size) := by
      unfold armPlain
      simp only [hop]
    have hends : endsBlock t.insn = true := by
      unfold endsBlock
      simp only [hop]
    rw [hplain, hends]
    refine ⟨(r.cpu.x (rs1 t.insn) + immI t.insn) &&& ~~~1,
      (ticked r.count { r.cpu with pc := t.pc }).wr (rd t.insn) (t.pc + t.size), ?_, ⟨t.pc, rfl⟩, rfl, rfl⟩
    unfold execInsn
    rw [get_bind_apply]
    simp only [hop]
    rfl

theorem together_load (hop : opcode t.insn = 0x03) (hv : verdict t.insn = .compiled)
    (hfit : Fits t (ticked r.count { r.cpu with pc := t.pc })) :
    Together t r (execInsn t.insn t.pc (t.pc + t.size) (ticked r.count { r.cpu with pc := t.pc })) := by
  have hopn : (opcode t.insn).toNat = 0x03 := by rw [hop]; rfl
  obtain ⟨⟨size, doSext⟩, hkind⟩ : ∃ kind, loadSize (funct3 t.insn) = some kind := by
    unfold verdict at hv
    simp only [hopn] at hv
    exact Option.isSome_iff_exists.1 (ofBool_compiled hv)
  let d : Cpu := { r.cpu with pc := t.pc }
  let va := d.x (rs1 t.insn) + immI t.insn
  have hinsn : armInsn t r = armLoad t size doSext r := by
    unfold armInsn
    simp only [hopn, hkind]
  have hends : endsBlock t.insn = false := by
    unfold endsBlock
    simp only [hopn]
  have hexec : execInsn t.insn t.pc (t.pc + t.size) (ticked r.count d) =
      (do
        let val ← orTrap (rv64CpuLoad va size .read) va
        wrM (rd t.insn) (extension doSext size val)
        return t.pc + t.size : Exec U64) (ticked r.count d) := by
    unfold execInsn
    rw [get_bind_apply]
    simp only [hopn]
    unfold execLoad
    rw [get_bind_apply, loadKind_eq, hkind]
    rfl
  have hload := rv64CpuLoad_ticked r.count va size .read d
  rw [hexec]
  unfold Together
  rw [hinsn, hends]
  cases hhit : inlineHits false (d.tlbEntry va) va size with
  | true =>
    have hallowed : loadAllowed d (d.tlbEntry va) = true := hfit.load hop size doSext hkind hhit
    have hfast := loadFast_isSome d va size
    rw [hhit, hallowed] at hfast
    obtain ⟨b, hb, hp⟩ := hitAt_eq hhit
    have hrun : rv64CpuLoad va size .read d = .ok (d.bus.mem.ram.read (hitAt d va) size) d := by
      rw [hp]
      exact rv64CpuLoad_hit (guard_some hfast hb)
    have harm : armLoad t size doSext r =
        .ok { r with cpu := d.wr (rd t.insn) (extension doSext size (d.bus.mem.ram.read (hitAt d va) size)) } := if_pos hhit
    rw [harm]
    dsimp only
    rw [hrun] at hload
    refine ⟨t.pc + t.size, _, bind_of_ok (by unfold orTrap; rw [hload]; rfl), ⟨t.pc, rfl⟩, rfl, rfl⟩
  | false =>
    rw [armLoad_miss t size doSext r hhit]
    cases hout : rv64CpuLoad va size .read d with
    | ok v c' =>
      rw [hout] at hload
      refine ⟨t.pc + t.size, _, bind_of_ok (by unfold orTrap; rw [hload]; rfl), ⟨c'.pc, rfl⟩, rfl, rfl⟩
    | error exc c' =>
      rw [hout] at hload
      refine ⟨exc, va, bind_of_error (by unfold orTrap; rw [hload]; rfl), rfl⟩

theorem together_store (hop : opcode t.insn = 0x23) (hv : verdict t.insn = .compiled)
    (hfit : Fits t (ticked r.count { r.cpu with pc := t.pc })) :
    Together t r (execInsn t.insn t.pc (t.pc + t.size) (ticked r.count { r.cpu with pc := t.pc })) := by
  have hopn : (opcode t.insn).toNat = 0x23 := by rw [hop]; rfl
  obtain ⟨size, hkind⟩ : ∃ size, storeSize (funct3 t.insn) = some size := by
    unfold verdict at hv
    simp only [hopn] at hv
    exact Option.isSome_iff_exists.1 (ofBool_compiled hv)
  let d : Cpu := { r.cpu with pc := t.pc }
  let va := d.x (rs1 t.insn) + immS t.insn
  let v := d.x (rs2 t.insn)
  have hinsn : armInsn t r = armStore t size r := by
    unfold armInsn
    simp only [hopn, hkind]
  have hends : endsBlock t.insn = false := by
    unfold endsBlock
    simp only [hopn]
  have hkind' : PgLinux.storeSize (funct3 t.insn) = some size := hkind
  have hexec : execInsn t.insn t.pc (t.pc + t.size) (ticked r.count d) =
      (do
        orTrap (cpuStore va size v) va
        return t.pc + t.size : Exec U64) (ticked r.count d) := by
    unfold execInsn
    rw [get_bind_apply]
    simp only [hopn]
    unfold execStore
    rw [get_bind_apply, hkind']
    rfl
  obtain ⟨hwatch, hallow⟩ := hfit.store hop
  have hstore := cpuStore_ticked r.count (c := d) hwatch va size v
  rw [hexec]
  unfold Together
  rw [hinsn, hends]
  cases hhit : inlineHits true (d.tlbEntry va) va size with
  | true =>
    have hallowed : storeAllowed d (d.tlbEntry va) = true := hallow size hkind hhit
    have hfast := storeFast_isSome d va size
    rw [hhit, hallowed] at hfast
    obtain ⟨b, hb, hp⟩ := hitAt_eq hhit
    have hlog : logStore va size v d = d := by
      unfold logStore
      rw [show d.dbg.watch_active = false from hwatch]
      rfl
    have hrun : cpuStore va size v d = .ok () (d.writeRam (hitAt d va) size v) := by
      rw [hp]
      have h : cpuStore va size v d = _ := cpuStore_hit (guard_some hfast hb)
      rwa [hlog] at h
    have harm : armStore t size r = .ok { r with cpu := d.writeRam (hitAt d va) size v } := if_pos hhit
    rw [harm]
    dsimp only
    rw [hrun] at hstore
    refine ⟨t.pc + t.size, _, bind_of_ok (by unfold orTrap; rw [hstore]; rfl), ⟨t.pc, rfl⟩, rfl, rfl⟩
  | false =>
    rw [armStore_miss t size r hhit]
    cases hout : cpuStore va size v d with
    | ok _ c' =>
      rw [hout] at hstore
      refine ⟨t.pc + t.size, _, bind_of_ok (by unfold orTrap; rw [hstore]; rfl), ⟨c'.pc, rfl⟩, rfl, rfl⟩
    | error exc c' =>
      rw [hout] at hstore
      refine ⟨exc, va, bind_of_error (by unfold orTrap; rw [hstore]; rfl), rfl⟩

theorem together_insn (hv : verdict t.insn = .compiled) (h0 : r.cpu.x 0 = 0)
    (hfit : Fits t (ticked r.count { r.cpu with pc := t.pc })) :
    Together t r (execInsn t.insn t.pc (t.pc + t.size) (ticked r.count { r.cpu with pc := t.pc })) := by
  by_cases hload : opcode t.insn = 0x03
  · exact together_load hload hv hfit
  · by_cases hstore : opcode t.insn = 0x23
    · exact together_store hstore hv hfit
    · exact together_plain hv hload hstore hfit.word h0

/-! ## Runs -/

/-- The instructions from `pc` on, one behind the other, and the pc behind the last where that is no jump. -/
def Laid : U64 → List GuestInsn → Option U64 → Prop
  | pc, [], p => p = some pc
  | pc, t :: ts, p => t.pc = pc ∧ if endsBlock t.insn then ts = [] ∧ p = none else Laid (pc + t.size) ts p

/-- The interpreter comes to each instruction in a state that it fits. -/
def AllFit (ts : List GuestInsn) (c : Cpu) : Prop :=
  ∀ k t d, ts[k]? = some t → interpretAll (ts.take k) c = .ok () d → Fits t d

theorem allFit_nil (c : Cpu) : AllFit [] c := fun k t d ht _ => by cases ht

theorem AllFit.cons {ts : List GuestInsn} {c : Cpu} (h : Fits t c) (hts : ∀ d, interpret t c = .ok () d → AllFit ts d) :
    AllFit (t :: ts) c := by
  intro k t' d ht hrun
  cases k with
  | zero =>
    cases ht
    cases hrun
    exact h
  | succ k =>
    rw [List.take_succ_cons, interpretAll] at hrun
    obtain ⟨_, d', hone, hrest⟩ := bind_eq_ok.1 hrun
    exact hts d' hone k t' d ht hrest

theorem AllFit.first {ts : List GuestInsn} {c : Cpu} (h : AllFit (t :: ts) c) : Fits t c := h 0 t c rfl rfl

theorem AllFit.next {ts : List GuestInsn} {c d : Cpu} (h : AllFit (t :: ts) c) (hd : interpret t c = .ok () d) :
    AllFit ts d := by
  intro k t' d' ht hrun
  refine h (k + 1) t' d' ht ?_
  rw [List.take_succ_cons, interpretAll, bind_of_ok hd]
  exact hrun

/-- The outcome of the interpreter on the way: where a run goes on, behind the code, with the pc `p` where that is told. -/
def Accompanies (out : Except Run Run) (p : Option U64) (res : EStateM.Result Unit Cpu Unit) : Prop :=
  match out with
  | .ok r => ∃ d, res = .ok () d ∧ Behind r d ∧ d.pc = p.getD r.cpu.pc
  | .error r => ∃ exc va, res = .error () (trap (ticked r.count r.cpu) exc va)

theorem interpretAll_run : ∀ (ts : List GuestInsn) (r : Run) (c : Cpu) (p : Option U64),
    (∀ t ∈ ts, verdict t.insn = .compiled) → Laid c.pc ts p → AllFit ts c → Behind r c → r.cpu.x 0 = 0 →
    Accompanies (armRun ts r) p (interpretAll ts c)
  | [], r, c, p, _, hlaid, _, hbehind, _ => by
    obtain rfl : p = some c.pc := hlaid
    exact ⟨c, rfl, hbehind, rfl⟩
  | t :: ts, r, c, p, hts, ⟨hpc, hlaid⟩, hfits, hbehind, h0 => by
    have hframe := framed_insn t r
    obtain ⟨pc, rfl⟩ := hbehind
    obtain rfl : t.pc = pc := hpc
    have htogether := together_insn (hts t List.mem_cons_self) h0 hfits.first
    unfold Together at htogether
    unfold armRun
    cases hr : armInsn t r with
    | error r' =>
      rw [hr] at htogether
      obtain ⟨exc, va, hexec, hcount⟩ := htogether
      refine ⟨exc, va, ?_⟩
      have hone : interpret t (ticked r.count { r.cpu with pc := t.pc }) =
          .error () (trap (ticked r'.count r'.cpu) exc va) := by
        unfold interpret
        rw [get_bind_apply]
        exact bind_of_error (by rw [hcount]; exact hexec)
      unfold interpretAll
      exact bind_of_error hone
    | ok r' =>
      rw [hr] at htogether hframe
      obtain ⟨nextPc, d, hexec, hbehind', hcount, hnext⟩ := htogether
      have hone : interpret t (ticked r.count { r.cpu with pc := t.pc }) = .ok () (retire nextPc d) := by
        unfold interpret
        rw [get_bind_apply]
        exact bind_of_ok hexec
      unfold interpretAll
      rw [bind_of_ok hone]
      have hrest := interpretAll_run ts r'.counted (retire nextPc d)
      by_cases hends : endsBlock t.insn = true
      · rw [if_pos hends] at hlaid hnext
        obtain ⟨rfl, rfl⟩ := hlaid
        exact ⟨_, rfl, hbehind'.retire nextPc, hnext⟩
      · rw [if_neg hends] at hlaid hnext
        refine hrest p (fun t' ht' => hts t' (List.mem_cons_of_mem _ ht')) ?_ (hfits.next hone) (hbehind'.retire nextPc)
          (hframe.1.zero h0)
        show Laid nextPc ts p
        rw [hnext]
        exact hlaid

/-! ## Blocks -/

/-- Where the instructions of a block end. -/
def Stop.next : Stop → Option U64
  | .ahead pc => some pc
  | .cannot t => some t.pc
  | .jumped => none
  | .branch pc => some pc

omit [HostFp] in
theorem scan_laid : ∀ (n : Nat) (pc : U64) (c : Cpu), Laid pc (scan n pc c).1 (scan n pc c).2.1.next
  | 0, _, _ => rfl
  | n + 1, pc, c => by
    unfold scan
    rcases jitFetchInsn pc c with ⟨_ | ⟨raw, compressed⟩, c'⟩
    · rfl
    · dsimp only
      have hrest := scan_laid n (pc + insnBytes compressed) c'
      split
      · rfl
      · split
        · rfl
        · rfl
        · by_cases hends : endsBlock (expand raw compressed) = true
          · rw [if_pos hends]
            exact ⟨rfl, by rw [if_pos hends]; exact ⟨rfl, rfl⟩⟩
          · rw [if_neg hends]
            exact ⟨rfl, by rw [if_neg hends]; exact hrest⟩

/-- The branch at the end of a block, as it is fetched for the second time. -/
def branchAt (c : Cpu) : Stop → Option GuestInsn
  | .branch pc => (jitFetchInsn pc c).1.map fun f => ⟨pc, expand f.1 f.2, insnBytes f.2⟩
  | _ => none

/-- The instructions of the block that is compiled at `pc`. -/
def blockList (pc : U64) (c : Cpu) : List GuestInsn :=
  let b := scan jitMaxBlockInsns pc c
  b.1 ++ (branchAt b.2.2 b.2.1).toList

theorem interpretAll_append : ∀ ts us : List GuestInsn,
    interpretAll (ts ++ us) = interpretAll ts >>= fun _ => interpretAll us
  | [], us => (pure_bind ..).symm
  | t :: ts, us => by
    show (interpret t >>= fun _ => interpretAll (ts ++ us)) = (interpret t >>= fun _ => interpretAll ts) >>= _
    rw [interpretAll_append ts us]
    exact (bind_assoc ..).symm

omit [HostFp] in
/-- A run that stops has not counted the instruction it stops at. -/
theorem armRun_stopped : ∀ (ts : List GuestInsn) (r r' : Run), armRun ts r = .error r' → r'.count < r.count + ts.length
  | [], _, _, h => by cases h
  | t :: ts, r, r', h => by
    have hcount := (framed_insn t r).2
    unfold armRun at h
    rw [List.length_cons]
    cases hr : armInsn t r with
    | error r1 =>
      rw [hr] at h hcount
      cases h
      have hsame : r'.count = r.count := hcount
      omega
    | ok r1 =>
      rw [hr] at h hcount
      have hsame : r1.count = r.count := hcount
      have hlt : r'.count < r1.count + 1 + ts.length := armRun_stopped ts r1.counted r' h
      omega

theorem interpret_branch {c : Cpu} (hop : opcode t.insn = 0x63) (hpc : c.pc = t.pc) (hbehind : Behind r c) (hfit : Fits t c) :
    interpret t c = .ok () (ticked (r.count + 1) (armBranch t r.cpu)) := by
  have hopn : (opcode t.insn).toNat = 0x63 := by rw [hop]; rfl
  have hnone := hfit.branch hop
  obtain ⟨pc, rfl⟩ := hbehind
  obtain rfl : pc = t.pc := hpc
  obtain ⟨taken, htaken⟩ := Option.ne_none_iff_exists'.1 hnone
  have harm : armBranch t r.cpu = { r.cpu with pc := if taken then t.pc + immB t.insn else t.pc + t.size } := by
    unfold armBranch
    rw [show branchTaken (funct3 t.insn) (r.cpu.x (rs1 t.insn)) (r.cpu.x (rs2 t.insn)) = some taken from htaken]
  have hexec : execInsn t.insn t.pc (t.pc + t.size) (ticked r.count { r.cpu with pc := t.pc }) =
      .ok (if taken then t.pc + immB t.insn else t.pc + t.size) (ticked r.count { r.cpu with pc := t.pc }) := by
    unfold execInsn
    rw [get_bind_apply]
    simp only [hopn]
    rw [htaken]
    rfl
  have hstart : Behind r (ticked r.count { r.cpu with pc := t.pc }) := ⟨t.pc, rfl⟩
  obtain ⟨pc, hretired⟩ := hstart.retire (if taken then t.pc + immB t.insn else t.pc + t.size)
  have hpcs := congrArg Cpu.pc hretired
  obtain rfl : (if taken then t.pc + immB t.insn else t.pc + t.size) = pc := hpcs
  unfold interpret
  rw [get_bind_apply, harm]
  refine (bind_of_ok hexec).trans ?_
  exact congrArg (EStateM.Result.ok ()) hretired

/-- The interpreter has run all of `ts` to the CPU of the run, or delivers a trap at the instruction that the run has not
counted. -/
def InStep (ts : List GuestInsn) (r : Run) : EStateM.Result Unit Cpu Unit → Prop
  | .ok _ d => r.count = ts.length ∧ d = ticked r.count r.cpu
  | .error _ d => r.count < ts.length ∧ ∃ exc va, d = trap (ticked r.count r.cpu) exc va

/-- What stands behind the instructions goes with the interpreter as well. -/
theorem armEnd_inStep {ts : List GuestInsn} {r : Run} {d cc : Cpu} {stop : Stop} (hbehind : Behind r d)
    (hpc : d.pc = stop.next.getD r.cpu.pc) (hcount : r.count = ts.length)
    (hbranch : ∀ p, stop = .branch p → ∃ t, branchAt cc (.branch p) = some t ∧ opcode t.insn = 0x63)
    (hfit : ∀ t, branchAt cc stop = some t → Fits t d) :
    InStep (ts ++ (branchAt cc stop).toList) (armEnd cc stop r) (interpretAll (branchAt cc stop).toList d) := by
  have hplain : ∀ r' : Run, r'.count = r.count → d = ticked r.count r'.cpu →
      InStep (ts ++ []) r' (interpretAll [] d) := by
    intro r' hsame hd
    rw [List.append_nil]
    refine ⟨hsame.trans hcount, ?_⟩
    rw [hsame]
    exact hd
  cases stop with
  | ahead p =>
    obtain ⟨pc, rfl⟩ := hbehind
    obtain rfl : pc = p := hpc
    exact hplain (r.setPc pc) rfl rfl
  | cannot t =>
    obtain ⟨pc, rfl⟩ := hbehind
    obtain rfl : pc = t.pc := hpc
    exact hplain (r.setPc t.pc) rfl rfl
  | jumped =>
    obtain ⟨pc, rfl⟩ := hbehind
    obtain rfl : pc = r.cpu.pc := hpc
    exact hplain r rfl rfl
  | branch p =>
    obtain ⟨t, ht, hop⟩ := hbranch p rfl
    have hrun : interpretAll [t] d = .ok () (ticked (r.count + 1) (armBranch t r.cpu)) := by
      have hat : t.pc = p := by
        obtain ⟨f, -, rfl⟩ := Option.map_eq_some_iff.1 ht
        rfl
      exact bind_of_ok (interpret_branch hop (hpc.trans hat.symm) hbehind (hfit t ht))
    have hend : armEnd cc (.branch p) r = { r.counted with cpu := armBranch t r.cpu } := by
      obtain ⟨f, hfetch, rfl⟩ := Option.map_eq_some_iff.1 ht
      unfold armEnd
      dsimp only
      rw [hfetch]
    rw [ht, hend]
    show InStep (ts ++ [t]) _ (interpretAll [t] d)
    rw [hrun]
    refine ⟨?_, rfl⟩
    show r.count + 1 = _
    rw [List.length_append, hcount]
    rfl

/-- **A block goes with the interpreter**: it ends in the state in which the interpreter has run the same instructions, or,
where one of them stops, in that in which the interpreter delivers the trap. -/
theorem armBlock_interprets {pc : U64} {cc c : Cpu} (hpc : c.pc = pc) (h0 : c.x 0 = 0) (hfits : AllFit (blockList pc cc) c)
    (hbranch : ∀ p, (scan jitMaxBlockInsns pc cc).2.1 = .branch p →
      ∃ t, branchAt (scan jitMaxBlockInsns pc cc).2.2 (.branch p) = some t ∧ opcode t.insn = 0x63) (slot : U64) :
    InStep (blockList pc cc) (armBlock pc cc ⟨c, slot, 0⟩) (interpretAll (blockList pc cc) c) := by
  subst hpc
  let b := scan jitMaxBlockInsns c.pc cc
  let start : Run := ⟨c, slot, 0⟩
  let last := (branchAt b.2.2 b.2.1).toList
  have hts : ∀ t ∈ b.1, verdict t.insn = .compiled := scan_compiled jitMaxBlockInsns c.pc cc
  have hlaid : Laid c.pc b.1 b.2.1.next := scan_laid jitMaxBlockInsns c.pc cc
  have hstart : Behind start c := by
    refine ⟨c.pc, ?_⟩
    have hzero : ∀ a : U64, a + BitVec.ofNat 64 0 = a := BitVec.add_zero
    show c = Cpu.setCounters (c.cycle + BitVec.ofNat 64 0) (c.instret + BitVec.ofNat 64 0) c
    rw [hzero, hzero]
    rfl
  have hbody : AllFit b.1 c := fun k t d ht hrun => by
    have hlt := (List.getElem?_eq_some_iff.1 ht).1
    refine hfits k t d ((List.getElem?_append_left hlt).trans ht) ?_
    show interpretAll ((b.1 ++ last).take k) c = _
    rw [List.take_append_of_le_length (Nat.le_of_lt hlt)]
    exact hrun
  have hrun := interpretAll_run b.1 start c b.2.1.next hts hlaid hbody hstart h0
  have hr : armBlock c.pc cc start = match armRun b.1 start with
      | .ok r => armEnd b.2.2 b.2.1 r
      | .error r => r := rfl
  show InStep (b.1 ++ last) (armBlock c.pc cc start) (interpretAll (b.1 ++ last) c)
  rw [interpretAll_append, hr]
  cases hout : armRun b.1 start with
  | error r =>
    rw [hout] at hrun
    obtain ⟨exc, va, hstop⟩ := hrun
    have hlt := armRun_stopped b.1 start r hout
    have hzero : start.count = 0 := rfl
    rw [bind_of_error hstop]
    refine ⟨?_, exc, va, rfl⟩
    rw [List.length_append]
    show r.count < _
    omega
  | ok r =>
    rw [hout] at hrun
    obtain ⟨d, hgo, hbehind, hpc⟩ := hrun
    have hcount : r.count = 0 + b.1.length := ((framed_run b.1 start).2 r hout).2
    rw [bind_of_ok hgo]
    refine armEnd_inStep hbehind hpc (by omega) hbranch fun t ht => hfits b.1.length t d ?_ ?_
    · show (b.1 ++ last)[b.1.length]? = some t
      rw [List.getElem?_append_right (Nat.le_refl _), Nat.sub_self]
      show (branchAt b.2.2 b.2.1).toList[0]? = some t
      rw [ht]
      rfl
    · show interpretAll ((b.1 ++ last).take b.1.length) c = _
      rw [List.take_left]
      exact hgo

/-- **Compiling a block keeps its meaning**: from wherever in the buffer the code stands, and whatever the helpers answer, it
returns with the guest as the interpreter has it after the same instructions, or before the trap of the one that stops. -/
theorem jitCompileBlock_interprets {h : Helpers} {e : Place} {pc : U64} {cc c : Cpu} {j : CodeBuf} {s : State}
    (hfn : h.fn_load ≠ h.fn_store) (hcap : maxNeeded ≤ j.code_capacity) (hmax : j.code_capacity ≤ jitCapacity)
    (hroom : (reserve j).2.code_off + blockWords h pc cc ≤ j.code_capacity) (hcount : blockInsns pc cc ≠ 0)
    (hsep : Separate e c.ram_size) (h0 : c.x 0 = 0) (hcpu : s.x 0 = e.base) (hsp : s.sp = e.sp + 48)
    (hrep : Represents e.base e.ram s.mem c) (hpages : PagesKept (scan jitMaxBlockInsns pc cc).1 ⟨c, s.x 19, 0⟩)
    (hpc : c.pc = pc) (hfits : AllFit (blockList pc cc) c)
    (hbranch : ∀ p, (scan jitMaxBlockInsns pc cc).2.1 = .branch p →
      ∃ t, branchAt (scan jitMaxBlockInsns pc cc).2.2 (.branch p) = some t ∧ opcode t.insn = 0x63) :
    ∃ b, (jitCompileBlock h pc cc j).1.1 = some b ∧
      Finishes (HelperCall h e) (fun w target t => ∃ r, InStep (blockList pc cc) r (interpretAll (blockList pc cc) c) ∧
          w = hidden r.cpu ∧ Returned e s r target t) (hidden c)
        ((jitCompileBlock h pc cc j).2.code_buf.drop b.host_code) s := by
  have hstep := armBlock_interprets hpc h0 hfits hbranch (s.x 19)
  have hfin : Finishes (HelperCall h e) _ (hidden c) (blockCode h pc cc) s :=
    blockCode_finishes hfn hsep h0 hcpu hsp hrep hpages
  refine finishes_compiled hcap hmax hroom hcount (hfin.mono fun w target t hq => ?_)
  exact ⟨_, hstep, hq⟩

end Interpreter

/-! ## A block that shows it -/

section Instances

local instance interpretNet : NetDevice := NetDevice.silent
local instance interpretFp : HostFp := HostFp.zero

/-- No access is inline where no page has a host pointer. -/
theorem fits_poll {c : Cpu} {t : GuestInsn} (hword : ¬ ArmMismatch t.insn) (hbranch : opcode t.insn ≠ 0x63)
    (htlb : c.tlb = uartCpu.tlb) (hwatch : c.dbg.watch_active = false) : Fits t c := by
  have hmiss : ∀ {store : Bool} {va : U64} {size : Nat}, inlineHits store (c.tlbEntry va) va size ≠ true := by
    intro store va size hhit
    have hnone : (c.tlbEntry va).host_base = none := by
      unfold Cpu.tlbEntry
      rw [htlb]
      exact uartCpu_tlb _
    unfold inlineHits probed at hhit
    simp [hnone] at hhit
  exact ⟨hword, fun _ _ _ _ hhit => absurd hhit hmiss, fun _ => ⟨hwatch, fun _ _ hhit => absurd hhit hmiss⟩,
    fun hop => absurd hop hbranch⟩

theorem poll_fits : AllFit pollList pollCpu := by
  refine .cons (fits_poll (by decide) (by decide) rfl rfl) fun d hd => ?_
  have hload : interpret (wordAt 0 0x00514083) pollCpu = .ok () (ticked 1 { pollCpu.wr 1 0x60 with pc := ramBase + 4 }) := rfl
  obtain rfl : _ = d := by simpa using hload.symm.trans hd
  refine .cons (fits_poll (by decide) (by decide) rfl rfl) fun d _ => .cons ⟨by decide, ?_, ?_, ?_⟩ fun d _ => allFit_nil d
  all_goals exact fun hop => absurd hop (by decide)

theorem blockList_poll : blockList ramBase (textCpu pollProgram) = pollList := by
  unfold blockList
  rw [scan_poll]
  exact List.append_nil _

/-- **The driver, compiled and interpreted**: both its accesses call. -/
theorem jitCompileBlock_interprets_poll : blockList ramBase (textCpu pollProgram) = pollList ∧
    ∃ b, (jitCompileBlock highHelpers ramBase (textCpu pollProgram) emptyBuf).1.1 = some b ∧
      Finishes (HelperCall highHelpers onesPlace) (fun w target t =>
          ∃ r, InStep (blockList ramBase (textCpu pollProgram)) r (interpretAll (blockList ramBase (textCpu pollProgram)) pollCpu) ∧
            w = hidden r.cpu ∧ Returned onesPlace pollEntry r target t) (hidden pollCpu)
        ((jitCompileBlock highHelpers ramBase (textCpu pollProgram) emptyBuf).2.code_buf.drop b.host_code) pollEntry := by
  have hpages : PagesKept (scan jitMaxBlockInsns ramBase (textCpu pollProgram)).1 ⟨pollCpu, pollEntry.x 19, 0⟩ := by
    rw [scan_poll]
    exact poll_pages _
  have hfits : AllFit (blockList ramBase (textCpu pollProgram)) pollCpu := by
    rw [blockList_poll]
    exact poll_fits
  refine ⟨blockList_poll, jitCompileBlock_interprets (by decide) (by decide) (by decide) poll_room poll_counts pollCpu_separate
    rfl rfl rfl pollMem_represents hpages rfl hfits fun p hp => ?_⟩
  rw [scan_poll] at hp
  cases hp

end Instances

end Arm64

end PgLinux
