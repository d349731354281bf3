import PgLinux.BlockExits
import PgLinux.DebugLogs
/-!
# StoreWatch — what the watchpoint's log receives

`cpu_store` makes its entry before it translates, and looks for the overlap with ends that wrap.  A run is followed with
the stores that its instructions try, each with the pc of its instruction and with whether it completes.
-/
namespace PgLinux

open Prog

/-! ## The watchpoint -/

/-- The watchpoint and its log. -/
structure Watch where
  active : Bool
  addr : U64
  size : U32
  log : U32 → StoreLog
  count : U32

def Cpu.watch (c : Cpu) : Watch :=
  ⟨c.dbg.watch_active, c.dbg.watch_addr, c.dbg.watch_size, c.dbg.store_log, c.dbg.store_log_count⟩

def Watch.receive (w : Watch) (e : StoreLog) : Watch :=
  { w with log := setAt w.log (w.count.srem 64) e, count := w.count + 1 }

/-- The test of `cpu_store`. -/
def Watch.tests (w : Watch) (va : U64) (size : Nat) : Bool :=
  w.active && decide (va < w.addr + w.size.setWidth 64) && decide (w.addr < va + BitVec.ofNat 64 size)

/-- One of the `size` bytes at `va` is watched. -/
def Watch.Covers (w : Watch) (va : U64) (size : Nat) : Prop :=
  w.active = true ∧ ∃ a : U64, (a - va).toNat < size ∧ (a - w.addr).toNat < w.size.toNat

/-- A store that an instruction tries. -/
structure StoreTry where
  pc : U64
  addr : U64
  size : Nat
  value : U64
  instret : U64
  completes : Bool

def StoreTry.entry (t : StoreTry) : StoreLog := ⟨t.pc, t.addr, t.value, t.size, t.instret⟩

/-- The watched range is empty, and lies inside the `size` bytes at `va`. -/
def Watch.Inside (w : Watch) (va : U64) (size : Nat) : Prop :=
  w.active = true ∧ w.size = 0 ∧ va < w.addr ∧ w.addr.toNat < va.toNat + size

/-- Neither the watched range nor the `size` bytes at `va` run up to the end of the address space. -/
def Watch.Ends (w : Watch) (va : U64) (size : Nat) : Prop :=
  w.addr.toNat + w.size.toNat < 2 ^ 64 ∧ va.toNat + size < 2 ^ 64

/-- The log is right about the store: it completes exactly when both ends stand where they seem to. -/
structure Watch.Sees (w : Watch) (t : StoreTry) : Prop where
  covers : w.Covers t.addr t.size → (t.completes = true ↔ w.Ends t.addr t.size)
  inside : w.Inside t.addr t.size → ¬ w.Ends t.addr t.size

theorem Watch.Sees.receive {w : Watch} {t : StoreTry} (h : w.Sees t) (e : StoreLog) : (w.receive e).Sees t :=
  ⟨h.covers, h.inside⟩

theorem covers_iff {w : Watch} {va : U64} {size : Nat} : w.Covers va size ↔
    w.active = true ∧ 0 < size ∧ 0 < w.size.toNat ∧
      ((va - w.addr).toNat < w.size.toNat ∨ (w.addr - va).toNat < size) := by
  have hself : ∀ a : U64, (a - a).toNat = 0 := by simp
  refine and_congr_right fun _ => ⟨?_, ?_⟩
  · rintro ⟨a, hstore, hrange⟩
    refine ⟨by omega, by omega, ?_⟩
    by_cases hle : (a - va).toNat ≤ (a - w.addr).toNat
    · left
      bv_omega
    · right
      bv_omega
  · rintro ⟨hpos, hrange, h | h⟩
    · exact ⟨va, by rw [hself]; exact hpos, h⟩
    · exact ⟨w.addr, h, by rw [hself]; exact hrange⟩

instance Watch.decidableCovers (w : Watch) (va : U64) (size : Nat) : Decidable (w.Covers va size) :=
  decidable_of_iff' _ covers_iff

instance Watch.decidableInside (w : Watch) (va : U64) (size : Nat) : Decidable (w.Inside va size) :=
  inferInstanceAs (Decidable (_ ∧ _ ∧ _ ∧ _))

instance Watch.decidableEnds (w : Watch) (va : U64) (size : Nat) : Decidable (w.Ends va size) :=
  inferInstanceAs (Decidable (_ ∧ _))

instance Watch.decidableSees (w : Watch) (t : StoreTry) : Decidable (w.Sees t) :=
  decidable_of_iff ((w.Covers t.addr t.size → (t.completes = true ↔ w.Ends t.addr t.size)) ∧
    (w.Inside t.addr t.size → ¬ w.Ends t.addr t.size)) ⟨fun h => ⟨h.1, h.2⟩, fun h => ⟨h.1, h.2⟩⟩

/-- **The test sees the overlap when neither end wraps**, and sees an empty range inside a store. -/
theorem tests_iff {w : Watch} {va : U64} {size : Nat} (hpos : 0 < size) (hsize : size ≤ 8) :
    w.tests va size = true ↔ w.Ends va size ∧ (w.Covers va size ∨ w.Inside va size) := by
  have hwidth : (w.size.setWidth 64).toNat = w.size.toNat := by
    have hlt := w.size.isLt
    rw [BitVec.toNat_setWidth]
    omega
  have hzero : (0 : U32).toNat = 0 := rfl
  rw [covers_iff]
  unfold Watch.tests Watch.Ends Watch.Inside
  rw [Bool.and_eq_true, Bool.and_eq_true, decide_eq_true_eq, decide_eq_true_eq, and_assoc, ← BitVec.toNat_inj]
  by_cases hactive : w.active = true
  · simp only [hactive, hpos, true_and, BitVec.lt_def, BitVec.toNat_add, BitVec.toNat_sub, hwidth, hzero,
      BitVec.toNat_ofNat]
    have haddr := w.addr.isLt
    have hlt := w.size.isLt
    have hva := va.isLt
    generalize w.addr.toNat = a at *
    generalize w.size.toNat = n at *
    generalize va.toNat = v at *
    omega
  · simp [hactive]

/-- A store that completes and reaches into the watched range. -/
def Watch.due (w : Watch) (t : StoreTry) : Bool := t.completes && decide (w.Covers t.addr t.size)

/-- **The test agrees with what is due** exactly when the log is right about the store. -/
theorem tests_eq_due_iff {w : Watch} {t : StoreTry} (hpos : 0 < t.size) (hsize : t.size ≤ 8) :
    w.tests t.addr t.size = w.due t ↔ w.Sees t := by
  have hnever : w.Inside t.addr t.size → ¬ w.Covers t.addr t.size := by
    rintro ⟨-, hzero, -⟩ hcovers
    have hrange := (covers_iff.1 hcovers).2.2.1
    rw [hzero] at hrange
    exact absurd hrange (by decide)
  have hdue : w.due t = true ↔ t.completes = true ∧ w.Covers t.addr t.size := by
    rw [Watch.due, Bool.and_eq_true, decide_eq_true_eq]
  rw [Bool.eq_iff_iff, tests_iff hpos hsize, hdue]
  constructor
  · intro h
    exact ⟨fun hcovers => ⟨fun hc => (h.2 ⟨hc, hcovers⟩).1, fun hends => (h.1 ⟨hends, .inl hcovers⟩).1⟩,
      fun hinside hends => hnever hinside (h.1 ⟨hends, .inr hinside⟩).2⟩
  · rintro ⟨hcovers, hinside⟩
    constructor
    · rintro ⟨hends, hc | hi⟩
      · exact ⟨(hcovers hc).2 hends, hc⟩
      · exact absurd hends (hinside hi)
    · rintro ⟨hcomp, hc⟩
      exact ⟨(hcovers hc).1 hcomp, .inl hc⟩

/-! ## What leaves the log alone -/

def SameWatch (c c' : Cpu) : Prop := c'.watch = c.watch

instance : IsPreorder Cpu SameWatch where
  refl _ := rfl
  trans _ _ _ h h' := h'.trans h

theorem sameWatch_of_dbg {c c' : Cpu} (h : c'.dbg = c.dbg) : SameWatch c c' := by
  unfold SameWatch Cpu.watch
  rw [h]

theorem trap_watch (c : Cpu) (cause tval : U64) : (trap c cause tval).watch = c.watch := by
  have hlog : (c.logTrap cause tval).watch = c.watch := by
    unfold Cpu.logTrap
    split <;> rfl
  exact (sameWatch_of_dbg (trap_dbg c cause tval)).trans hlog

theorem sret_watch (c : Cpu) : (sret c).watch = c.watch := by
  unfold sret backfill
  dsimp only
  split <;> rfl

theorem checkBreak_watch (c : Cpu) : (checkBreak c).watch = c.watch := by
  unfold checkBreak
  split <;> rfl

theorem orTrap_watch {α : Type} (m : Access α) (tval : U64) (c : Cpu) :
    (final (orTrap m tval c)).watch = (final (m c)).watch := by
  unfold orTrap
  cases m c with
  | ok v d => rfl
  | error exc d => exact trap_watch d exc tval

theorem fpAccess_watch {α : Type} (m : Access α) (addr : U64) {k : α → Cpu → Cpu} (hk : ∀ v c, (k v c).watch = c.watch)
    (c : Cpu) : (fpAccess m addr k c).2.watch = (final (m c)).watch := by
  unfold fpAccess
  cases m c with
  | ok v d => exact hk v d
  | error exc d => exact trap_watch d exc addr

theorem bind_watch {α β : Type} {m : Exec α} {f : α → Exec β} (hf : ∀ a, Leads SameWatch (f a)) (c : Cpu) :
    (final ((m >>= f) c)).watch = (final (m c)).watch := by
  cases h : m c with
  | ok a d =>
    rw [bind_of_ok h]
    exact hf a d
  | error e d => rw [bind_of_error h, final, final]

/-- What `cpu_store` does to the log. -/
def Watch.logged (w : Watch) (t : StoreTry) : Watch := if w.tests t.addr t.size then w.receive t.entry else w

def StoreTry.Sized (t : StoreTry) : Prop := 0 < t.size ∧ t.size ≤ 8

/-- **Stores that the log is right about** leave it as they should. -/
theorem logged_exact : ∀ (l : List StoreTry) (w : Watch), (∀ t ∈ l, t.Sized) → (∀ t ∈ l, w.Sees t) →
    l.foldl Watch.logged w = ((l.filter w.due).map StoreTry.entry).foldl Watch.receive w
  | [], _, _, _ => rfl
  | t :: l, w, hsized, hsees => by
    obtain ⟨hpos, hsize⟩ := hsized t List.mem_cons_self
    have htest : w.tests t.addr t.size = w.due t := (tests_eq_due_iff hpos hsize).2 (hsees t List.mem_cons_self)
    have hrest := logged_exact l (w.logged t) (fun u hu => hsized u (List.mem_cons_of_mem t hu))
    rw [List.foldl_cons]
    unfold Watch.logged at hrest ⊢
    rw [htest] at hrest ⊢
    cases hdue : w.due t with
    | true =>
      rw [hdue, if_pos rfl] at hrest
      rw [if_pos rfl, hrest fun u hu => (hsees u (List.mem_cons_of_mem t hu)).receive _, List.filter_cons_of_pos hdue]
      rfl
    | false =>
      rw [hdue, if_neg (by decide)] at hrest
      rw [if_neg (by decide), hrest fun u hu => hsees u (List.mem_cons_of_mem t hu),
        List.filter_cons_of_neg (by rw [hdue]; decide)]

/-! ## The stores of the interpreter -/

section Stores

variable [NetDevice]

/-- The store of `size` bytes that the instruction at `pc` tries on `c`. -/
def tryStore (pc addr : U64) (size : Nat) (value : U64) (c : Cpu) : StoreTry :=
  ⟨pc, addr, size, value, c.instret, (answer (cpuStore addr size value c)).isSome⟩

/-- FSW and FSD. -/
def fpStores (insn : U32) (pc : U64) (c : Cpu) : List StoreTry :=
  if funct3 insn = 2 then [tryStore pc (c.x (rs1 insn) + immS insn) 4 (c.f (rs2 insn) &&& 0xFFFFFFFF) (markFsDirty c)]
  else if funct3 insn = 3 then [tryStore pc (c.x (rs1 insn) + immS insn) 8 (c.f (rs2 insn)) (markFsDirty c)]
  else []

/-- SC and the AMOs store once they have loaded. -/
def amoStores (insn : U32) (pc : U64) (c : Cpu) : List StoreTry :=
  match rv64CpuLoad (c.x (rs1 insn)) (amoBytes insn) .read c with
  | .ok old d => (amoStored insn d old).toList.map fun val => tryStore pc (c.x (rs1 insn)) (amoBytes insn) val d
  | .error _ _ => []

/-- The stores that an instruction at `pc` tries. -/
def insnStores (insn : U32) (pc : U64) (c : Cpu) : List StoreTry :=
  match (opcode insn).toNat with
  | 0x23 => (storeSize (funct3 insn)).toList.map fun size =>
      tryStore pc (c.x (rs1 insn) + immS insn) size (c.x (rs2 insn)) c
  | 0x2F => amoStores insn pc c
  | 0x27 => fpStores insn pc c
  | _ => []

/-- The stores that a step tries. -/
def stepStores (c : Cpu) : List StoreTry :=
  if c.halted then []
  else
    match fetchInsn c.pc (checkBreak c) with
    | .ok word d =>
      match expandInsn word (logInsn word d) with
      | .ok insn d => insnStores insn c.pc d
      | .error _ _ => []
    | .error _ _ => []

theorem translate_watch (va : U64) (access : AccessType) : Leads SameWatch (rv64Translate va access) :=
  leads_rv64Translate (.of_any fun _ _ => rfl) (fun _ _ _ _ _ _ _ _ => rfl) va access

/-- **A load does not touch the watchpoint.** -/
theorem watch_rules : LoadRules SameWatch where
  wr _ _ _ := rfl
  load := leads_rv64CpuLoad (.of_any fun _ _ => rfl) translate_watch
  trap := trap_watch
  jitFlush _ := rfl

theorem storeAt_watch (va : U64) (size : Nat) (val : U64) : Leads SameWatch (storeAt va size val) :=
  leads_storeAt (.of_any fun _ _ => rfl) translate_watch va size val

variable {c : Cpu} {pc : U64}

theorem cpuStore_watch (hpc : c.pc = pc) (addr : U64) (size : Nat) (value : U64) :
    (final (cpuStore addr size value c)).watch = c.watch.logged (tryStore pc addr size value c) := by
  have hlog : (logStore addr size value c).watch = c.watch.logged (tryStore pc addr size value c) := by
    subst hpc
    unfold logStore Watch.logged
    by_cases htest : c.watch.tests addr size = true
    · exact (congrArg Cpu.watch (if_pos htest)).trans (if_pos htest).symm
    · exact (congrArg Cpu.watch (if_neg htest)).trans (if_neg htest).symm
  exact (storeAt_watch addr size value (logStore addr size value c)).trans hlog

theorem store_bind_watch {α : Type} (hpc : c.pc = pc) (addr : U64) (size : Nat) (value tval : U64) {f : Unit → Exec α}
    (hf : ∀ u, Leads SameWatch (f u)) : (final ((orTrap (cpuStore addr size value) tval >>= f) c)).watch =
      c.watch.logged (tryStore pc addr size value c) := by
  rw [bind_watch hf, orTrap_watch, cpuStore_watch hpc]

theorem load_bind_watch {α : Type} (addr : U64) (size : Nat) (tval : U64) (f : U64 → Exec α) (c : Cpu) :
    (final ((orTrap (rv64CpuLoad addr size .read) tval >>= f) c)).watch =
      match rv64CpuLoad addr size .read c with
      | .ok old d => (final (f old d)).watch
      | .error _ _ => c.watch := by
  have hwatch := watch_rules.load addr size .read c
  cases h : rv64CpuLoad addr size .read c with
  | ok old d => rw [bind_of_ok (orTrap_eq_ok.2 h)]
  | error exc d =>
    rw [h] at hwatch
    rw [bind_of_error (orTrap_eq_error.2 ⟨exc, d, h, rfl⟩)]
    exact (trap_watch d exc tval).trans hwatch

variable {insn : U32} {nextPc : U64}

theorem execStore_watch (hpc : c.pc = pc) (hop : opcode insn = 0x23) :
    (final (execStore insn nextPc c)).watch = (insnStores insn pc c).foldl Watch.logged c.watch := by
  have hstores : insnStores insn pc c = (storeSize (funct3 insn)).toList.map fun size =>
      tryStore pc (c.x (rs1 insn) + immS insn) size (c.x (rs2 insn)) c := by
    unfold insnStores
    rw [hop]
    rfl
  rw [hstores]
  unfold execStore
  rw [get_bind_apply]
  cases hsize : storeSize (funct3 insn) with
  | none => exact watch_rules.illegal (α := U64) insn c
  | some size => exact store_bind_watch hpc _ _ _ _ fun _ => leads_pure _

theorem execSc_watch (hpc : c.pc = pc) (addr : U64) (size : Nat) : (final (execSc insn addr size c)).watch =
    if c.reservation.valid && c.reservation.addr == addr then
      c.watch.logged (tryStore pc addr size (c.x (rs2 insn)) c) else c.watch := by
  have hclear : Leads SameWatch (modify fun c : Cpu =>
      { c with reservation := { c.reservation with valid := false } } : Exec Unit) := leads_modify fun _ => rfl
  unfold execSc
  rw [get_bind_apply]
  dsimp only
  split
  · exact store_bind_watch hpc _ _ _ _ fun _ => leads_bind (watch_rules.wrM _ _) fun _ => hclear
  · exact leads_bind (R := SameWatch) (watch_rules.wrM _ _) (fun _ => hclear) c

theorem execAmo_watch (hpc : c.pc = pc) (hop : opcode insn = 0x2F) :
    (final (execAmo insn nextPc c)).watch = (insnStores insn pc c).foldl Watch.logged c.watch := by
  have hstores : insnStores insn pc c = amoStores insn pc c := by
    unfold insnStores
    rw [hop]
    rfl
  have hframe := rv64CpuLoad_frame (c.x (rs1 insn)) (amoBytes insn) .read c
  have hwatch := watch_rules.load (c.x (rs1 insn)) (amoBytes insn) .read c
  rw [hstores]
  unfold execAmo amoStores
  rw [get_bind_apply]
  refine (load_bind_watch (c.x (rs1 insn)) (amoBytes insn) _ _ c).trans ?_
  cases hload : rv64CpuLoad (c.x (rs1 insn)) (amoBytes insn) .read c with
  | error exc d => rfl
  | ok old d =>
    rw [hload] at hframe hwatch
    have hd : d.pc = pc ∧ d.x = c.x := by
      obtain ⟨t, b, g, rfl⟩ := hframe
      exact ⟨hpc, rfl⟩
    obtain ⟨hd, hx⟩ := hd
    dsimp only
    rw [← show d.watch = c.watch from hwatch]
    unfold amoStored
    split
    next hlr =>
      rw [if_pos (show funct5 insn = 0x02 from hlr)]
      rfl
    next hlr =>
      rw [if_neg (show ¬ funct5 insn = 0x02 from hlr)]
      split
      next hsc =>
        rw [if_pos (show funct5 insn = 0x03 from hsc)]
        refine (bind_watch (fun _ => leads_pure _) d).trans ((execSc_watch hd _ _).trans ?_)
        rw [hx]
        by_cases hres : (d.reservation.valid && d.reservation.addr == c.x (rs1 insn)) = true
        · rw [if_pos hres, if_pos hres]
          rfl
        · rw [if_neg hres, if_neg hres]
          rfl
      next hsc =>
        rw [if_neg (show ¬ funct5 insn = 0x03 from hsc), get_bind_apply]
        unfold amoLoaded funct5
        cases amoResult ((funct7 insn).extractLsb' 2 5) _ (d.x (rs2 insn)) with
        | none => exact (bind_watch (fun _ => leads_pure _) d).trans (watch_rules.illegal (α := Unit) insn d)
        | some result => exact store_bind_watch hd _ _ _ _ fun _ => leads_bind (watch_rules.wrM _ _) fun _ => leads_pure _

variable [HostFp]

theorem rv64FpExec_store_watch (hpc : c.pc = pc) (hop : opcode insn = 0x27) :
    (rv64FpExec insn c).2.watch = (fpStores insn pc c).foldl Watch.logged c.watch := by
  have hkeep : ∀ (v : Unit) (c : Cpu), ((fun _ c => c) v c : Cpu).watch = c.watch := fun _ _ => rfl
  unfold rv64FpExec fpStores
  rw [hop]
  show (if funct3 insn = 2 then _ else if funct3 insn = 3 then _ else _ : FpResult × Cpu).2.watch = _
  by_cases h2 : funct3 insn = 2
  · rw [if_pos h2, if_pos h2]
    exact (fpAccess_watch _ _ hkeep _).trans (cpuStore_watch (c := markFsDirty c) hpc _ _ _)
  rw [if_neg h2, if_neg h2]
  by_cases h3 : funct3 insn = 3
  · rw [if_pos h3, if_pos h3]
    exact (fpAccess_watch _ _ hkeep _).trans (cpuStore_watch (c := markFsDirty c) hpc _ _ _)
  · rw [if_neg h3, if_neg h3]
    rfl

theorem rv64FpExec_quiet (hop : (opcode insn).toNat ≠ 0x27) (c : Cpu) : SameWatch c (rv64FpExec insn c).2 := by
  refine watch_rules.rv64FpExec (fun h => absurd h hop) (fun _ => rfl) (fun _ _ => rfl) fun d hd => ?_
  obtain ⟨x, f, rfl⟩ := fpCompute_regs _ _ d hd
  rfl

theorem execFp_watch (c : Cpu) : (final (execFp insn nextPc c)).watch = (rv64FpExec insn c).2.watch := by
  unfold execFp
  cases rv64FpExec insn c with
  | mk r d =>
    cases r with
    | ok => rfl
    | illegal => exact watch_rules.illegal (α := U64) insn d
    | faulted => rfl

/-- **An instruction logs the stores that it tries.** -/
theorem execInsn_watch (hpc : c.pc = pc) :
    (final (execInsn insn pc nextPc c)).watch = (insnStores insn pc c).foldl Watch.logged c.watch := by
  by_cases hstore : opcode insn = 0x23
  · have hinsn : execInsn insn pc nextPc c = execStore insn nextPc c := by
      unfold execInsn
      rw [get_bind_apply, hstore]
      rfl
    rw [hinsn, execStore_watch hpc hstore]
  by_cases hamo : opcode insn = 0x2F
  · rw [execInsn_atomic hamo, execAmo_watch hpc hamo]
  by_cases hfp : opcode insn = 0x27
  · have hstores : insnStores insn pc c = fpStores insn pc c := by
      unfold insnStores
      rw [hfp]
      rfl
    have hinsn : execInsn insn pc nextPc c = execFp insn nextPc c := by
      unfold execInsn
      rw [get_bind_apply, hfp]
      rfl
    rw [hinsn, hstores, execFp_watch, rv64FpExec_store_watch hpc hfp]
  have hnone : insnStores insn pc c = [] := by
    unfold insnStores
    split
    next h => exact absurd (BitVec.eq_of_toNat_eq h) hstore
    next h => exact absurd (BitVec.eq_of_toNat_eq h) hamo
    next h => exact absurd (BitVec.eq_of_toNat_eq h) hfp
    next => rfl
  have hquiet : (opcode insn).toNat ≠ 0x27 := fun h => hfp (BitVec.eq_of_toNat_eq h)
  have hsystem : Leads SameWatch (execSystem insn nextPc) :=
    watch_rules.execSystem (fun _ c => ⟨rfl, sret_watch c⟩) (fun _ => rfl) (fun _ => rfl) nextPc
  have hcsr : Leads SameWatch (execCsr insn nextPc) :=
    watch_rules.execCsr (fun csr val c => sameWatch_of_dbg (csrWriteChecked_dbg csr val c)) insn nextPc
  rw [hnone]
  exact watch_rules.execInsn (fun h => absurd h hstore) (fun h => absurd h hamo) (fun _ => rv64FpExec_quiet hquiet)
    (fun _ => leads_ite hsystem hcsr) pc c

/-- **A step logs the stores that it tries.** -/
theorem rv64Step_watch (c : Cpu) : (rv64Step c).watch = (stepStores c).foldl Watch.logged c.watch := by
  have hfetch := watch_rules.fetchInsn c.pc (checkBreak c)
  unfold rv64Step stepStores
  cases hhalt : c.halted with
  | true => rfl
  | false =>
    rw [if_neg (by decide), if_neg (by decide), stepBody_eq]
    cases hf : fetchInsn c.pc (checkBreak c) with
    | error e d =>
      rw [hf] at hfetch
      exact hfetch.trans (checkBreak_watch c)
    | ok word d =>
      rw [hf] at hfetch
      have hd : (logInsn word d).watch = c.watch := hfetch.trans (checkBreak_watch c)
      dsimp only
      unfold afterFetch
      rcases expandInsn_cases word with ⟨insn, he⟩ | he
      · rw [he]
        have hpc : (logInsn word d).pc = c.pc := by
          obtain ⟨t, b, g, rfl⟩ := fetchInsn_frame hf
          rfl
        rw [← hd]
        refine (bind_watch (f := fun n => modify (retire n)) (fun _ => leads_modify fun _ => rfl) _).trans ?_
        exact execInsn_watch hpc
      · rw [he]
        exact (trap_watch _ _ _).trans hd

end Stores

/-! ## The stores of a block -/

/-- An operation that assigns. -/
def SljitOp.plain : SljitOp → Bool
  | .mov .. | .op2 .. | .flags .. | .localBase _ => true
  | _ => false

section Plain

@[simp] theorem plain_mov (t : MovType) (dst src : Operand) : (SljitOp.mov t dst src).plain = true := rfl

@[simp] theorem plain_op2 (op : Op2) (dst a b : Operand) : (SljitOp.op2 op dst a b).plain = true := rfl

@[simp] theorem emitLoadGuest_plain (dst : SReg) (grs : BitVec 5) : (emitLoadGuest dst grs).plain = true := by
  unfold emitLoadGuest
  split <;> rfl

@[simp] theorem emitStoreGuest_plain (grs : BitVec 5) (src : SReg) :
    (emitStoreGuest grs src).all SljitOp.plain = true := by
  unfold emitStoreGuest
  split <;> rfl

@[simp] theorem emitOpAlu_plain (insn : U32) : (emitOpAlu insn).all SljitOp.plain = true := by
  unfold emitOpAlu
  split <;> rfl

@[simp] theorem emitOpImmAlu_plain (insn : U32) : (emitOpImmAlu insn).all SljitOp.plain = true := by
  unfold emitOpImmAlu
  dsimp only
  split <;> rfl

@[simp] theorem emitLoadExt_plain (insn : U32) : (emitLoadExt insn).all SljitOp.plain = true := by
  unfold emitLoadExt
  split <;> rfl

theorem emitOp32_plain (insn : U32) : (emitOp32 insn).ops.all SljitOp.plain = true := by
  unfold emitOp32
  dsimp only
  split <;> simp [Emitted.alu, Emitted.unsupported]

theorem emitOpImm32_plain (insn : U32) : (emitOpImm32 insn).ops.all SljitOp.plain = true := by
  unfold emitOpImm32
  dsimp only
  split <;> simp [Emitted.alu, Emitted.unsupported]

end Plain

section Blocks

variable [NetDevice] [HostFp]

/-- The stores that an instruction of a block tries. -/
def JitSrc.stores (i : JitSrc) (c : Cpu) : List StoreTry :=
  match (opcode i.insn).toNat with
  | 0x23 => [tryStore i.va (c.jitX (rs1 i.insn) + (jitImmS i.insn).signExtend 64) (jitSize i.insn).toNat
      (c.jitX (rs2 i.insn)) { c with pc := i.va }]
  | 0x27 => fpStores i.insn i.va { c with pc := i.va }
  | _ => []

/-- Those of the instructions up to where the block is left. -/
def blockStores : List JitSrc → JState → List StoreTry
  | [], _ => []
  | i :: src, s => i.stores s.cpu ++
    match runOps none i.single s with
    | (none, t) => blockStores src t
    | (some _, _) => []

/-- Those of the block that `jit_exec` runs. -/
def jitStores (undef : U64) (c : Cpu) : List StoreTry :=
  match c.jit with
  | none => []
  | some j => if j.enabled then blockStores (lookupBlock j c).1.src (blockEntry undef (lookupBlock j c).2) else []

/-- From `s` the operations fall through or leave the block, and log `l`. -/
structure LogsThrough (ops : List SljitOp) (s : JState) (l : List StoreTry) : Prop where
  mode : (runOps none ops s).1 = none ∨ (runOps none ops s).1 = some .epilogue
  watch : (runOps none ops s).2.cpu.watch = l.foldl Watch.logged s.cpu.watch

theorem exec_plain {op : SljitOp} (h : op.plain = true) (s : JState) :
    s.target op = none ∧ (s.exec op).cpu.watch = s.cpu.watch := by
  have hwrite : ∀ (s : JState) (dst : Operand) (v : U64), (s.write dst v).cpu.watch = s.cpu.watch := by
    intro s dst v
    cases dst <;> rfl
  cases op with
  | cmp | jump | icall | label => cases h
  | mov t dst src => exact ⟨rfl, hwrite _ _ _⟩
  | op2 op dst a b =>
    refine ⟨rfl, (hwrite _ _ _).trans ?_⟩
    split <;> rfl
  | flags | localBase => exact ⟨rfl, rfl⟩

theorem plain_through : ∀ {ops : List SljitOp}, ops.all SljitOp.plain = true → ∀ s : JState,
    (runOps none ops s).1 = none ∧ (runOps none ops s).2.cpu.watch = s.cpu.watch
  | [], _, _ => ⟨rfl, rfl⟩
  | op :: ops, h, s => by
    obtain ⟨hop, hops⟩ := Bool.and_eq_true_iff.1 h
    obtain ⟨htarget, hwatch⟩ := exec_plain hop s
    obtain ⟨hmode, hrest⟩ := plain_through hops (s.exec op)
    show (runOps (s.target op) ops (s.exec op)).1 = none ∧ (runOps (s.target op) ops (s.exec op)).2.cpu.watch = _
    rw [htarget]
    exact ⟨hmode, hrest.trans hwatch⟩

theorem logsThrough_plain {ops : List SljitOp} (h : ops.all SljitOp.plain = true) (s : JState) : LogsThrough ops s [] :=
  ⟨.inl (plain_through h s).1, (plain_through h s).2⟩

theorem logsThrough_call {u : JState} {f : ICall} {ops : List SljitOp} (hops : ops.all SljitOp.plain = true)
    {l : List StoreTry} (h : (u.call f).cpu.watch = l.foldl Watch.logged u.cpu.watch) :
    LogsThrough (.icall f :: .cmp .notEqual r0 (.imm 0) .epilogue :: ops) u l := by
  have hlabel : .label .epilogue ∉ ops := fun hmem => nomatch List.all_eq_true.1 hops _ hmem
  have hrun : runOps none (.icall f :: .cmp .notEqual r0 (.imm 0) .epilogue :: ops) u =
      runOps (if (u.call f).regs .R0 != 0 then some .epilogue else none) ops (u.call f) := rfl
  by_cases hr : ((u.call f).regs .R0 != 0) = true
  · rw [if_pos hr, runOps_skip hlabel] at hrun
    exact ⟨.inr (by rw [hrun]), by rw [hrun, h]⟩
  · rw [if_neg hr] at hrun
    obtain ⟨hmode, hwatch⟩ := plain_through hops (u.call f)
    exact ⟨.inl (by rw [hrun, hmode]), by rw [hrun, hwatch, h]⟩

theorem call_store_watch {u : JState} {pc : U64} (hpc : u.cpu.pc = pc) : (u.call .store).cpu.watch =
    u.cpu.watch.logged (tryStore pc (u.regs .R1) (u.regs .R2).toNat (u.regs .R3) u.cpu) := by
  rw [← cpuStore_watch hpc]
  unfold JState.call
  dsimp only
  cases cpuStore (u.regs .R1) (u.regs .R2).toNat (u.regs .R3) u.cpu <;> rfl

theorem call_load_watch (u : JState) : (u.call .load).cpu.watch = u.cpu.watch := by
  have hload := watch_rules.load (u.regs .R1) (u.regs .R2).toNat .read u.cpu
  unfold JState.call
  dsimp only
  cases hr : rv64CpuLoad (u.regs .R1) (u.regs .R2).toNat .read u.cpu <;>
  · rw [hr] at hload
    exact hload

theorem logsThrough_emitLoad (insn : U32) (pc : U64) (s : JState) : LogsThrough (emitLoad insn pc).ops s [] := by
  obtain ⟨t, hrun, hcpu, -⟩ := runOps_memoryOps pc (rs1 insn) (jitImmI insn) (jitSize insn) s
  have hcall : LogsThrough (.icall .load :: .cmp .notEqual r0 (.imm 0) .epilogue ::
      ([.mov .mov r0 .loc] ++ emitLoadExt insn ++ emitStoreGuest (rd insn) .R0)) (t.exec (.localBase .R3)) [] :=
    logsThrough_call (by simp) (call_load_watch _)
  have hsame : (t.exec (.localBase .R3)).cpu.watch = s.cpu.watch := by
    show t.cpu.watch = s.cpu.watch
    rw [hcpu]
    rfl
  constructor
  · rw [emitLoad_ops, runOps_append, hrun]
    exact hcall.mode
  · rw [emitLoad_ops, runOps_append, hrun, ← hsame]
    exact hcall.watch

theorem logsThrough_emitStore (insn : U32) (pc : U64) (s : JState) : LogsThrough (emitStore insn pc).ops s
    [tryStore pc (s.cpu.jitX (rs1 insn) + (jitImmS insn).signExtend 64) (jitSize insn).toNat (s.cpu.jitX (rs2 insn))
      { s.cpu with pc := pc }] := by
  obtain ⟨u, hrun, hcpu, haddr, hsize, hvalue⟩ := runOps_emitStore insn pc s
  have hpc : u.cpu.pc = pc := congrArg Cpu.pc hcpu
  have hcall : LogsThrough [.icall .store, .cmp .notEqual r0 (.imm 0) .epilogue] u
      [tryStore pc (u.regs .R1) (u.regs .R2).toNat (u.regs .R3) u.cpu] := logsThrough_call rfl (call_store_watch hpc)
  rw [haddr, hsize, hvalue, hcpu] at hcall
  constructor
  · rw [hrun]
    exact hcall.mode
  · rw [hrun, hcall.watch, hcpu]
    rfl

theorem logsThrough_emitFp (insn : U32) (pc : U64) (s : JState) : LogsThrough (emitFp insn pc).ops s
    (if (opcode insn).toNat = 0x27 then fpStores insn pc { s.cpu with pc := pc } else []) := by
  cases hr : rv64FpExec insn { s.cpu with pc := pc } with
  | mk r c =>
    obtain ⟨t, hcpu, hrun⟩ := runOps_emitFp insn pc s hr
    constructor
    · rw [hrun]
      cases r <;> simp
    · rw [hrun, hcpu]
      split
      next hop =>
        have hwatch := rv64FpExec_store_watch (c := { s.cpu with pc := pc }) rfl (BitVec.eq_of_toNat_eq hop)
        rw [hr] at hwatch
        exact hwatch
      next hop =>
        have hwatch := rv64FpExec_quiet hop { s.cpu with pc := pc }
        rw [hr] at hwatch
        exact hwatch

theorem logsThrough_emitBranch (insn : U32) (pc : U64) (compressed : Bool) (s : JState) :
    LogsThrough (emitBranch insn pc compressed).ops s [] := by
  have hloads : [emitLoadGuest .R0 (rs1 insn), emitLoadGuest .R1 (rs2 insn)].all SljitOp.plain = true := by simp
  unfold emitBranch
  dsimp only
  cases branchCond insn with
  | none => exact logsThrough_plain hloads s
  | some cond =>
    obtain ⟨hmode, hwatch⟩ := plain_through hloads s
    generalize hrun : runOps none [emitLoadGuest .R0 (rs1 insn), emitLoadGuest .R1 (rs2 insn)] s = r at hmode hwatch
    obtain ⟨mode, t⟩ := r
    obtain rfl : mode = none := hmode
    have hrest (a b : U64) : (runOps none [.cmp cond r0 r1 .taken, .mov .mov .pc (.imm a), .jump .done, .label .taken,
        .mov .mov .pc (.imm b), .label .done] t).1 = none ∧ (runOps none [.cmp cond r0 r1 .taken, .mov .mov .pc (.imm a),
          .jump .done, .label .taken, .mov .mov .pc (.imm b), .label .done] t).2.cpu.watch = t.cpu.watch := by
      show (runOps (if cond.eval (t.read r0) (t.read r1) then some .taken else none) _ t).1 = none ∧
        (runOps (if cond.eval (t.read r0) (t.read r1) then some .taken else none) _ t).2.cpu.watch = t.cpu.watch
      split <;> exact ⟨rfl, rfl⟩
    unfold Emitted.last
    constructor
    · rw [runOps_append, hrun]
      exact .inl (hrest _ _).1
    · rw [runOps_append, hrun]
      exact (hrest _ _).2.trans hwatch

/-- **An instruction of a block logs the stores that it tries**, and falls through or leaves the block. -/
theorem logsThrough_emitted {i : JitSrc} (hsup : i.emitted.supported = true) (s : JState) :
    LogsThrough i.emitted.ops s (i.stores s.cpu) := by
  have hfp := logsThrough_emitFp i.insn i.va s
  rw [JitSrc.emitted_insn hsup]
  unfold JitSrc.stores emitInsn
  split
  next hop => simp only [hop]; exact logsThrough_plain (by simp [emitOp, Emitted.alu]) s
  next hop => simp only [hop]; exact logsThrough_plain (by simp [emitOpImm, Emitted.alu]) s
  next hop => simp only [hop]; exact logsThrough_plain (emitOp32_plain _) s
  next hop => simp only [hop]; exact logsThrough_plain (emitOpImm32_plain _) s
  next hop => simp only [hop]; exact logsThrough_plain (by simp [emitLui, Emitted.alu]) s
  next hop => simp only [hop]; exact logsThrough_plain (by simp [emitAuipc, Emitted.alu]) s
  next hop => simp only [hop]; exact logsThrough_plain (by simp [emitJal, Emitted.last]) s
  next hop => simp only [hop]; exact logsThrough_plain (by simp [emitJalr, Emitted.last]) s
  next hop => simp only [hop]; exact logsThrough_emitBranch _ _ _ s
  next hop => simp only [hop]; exact logsThrough_emitLoad _ _ s
  next hop => simp only [hop]; exact logsThrough_emitStore _ _ s
  case h_19 =>
    split
    next hop => exact absurd hop ‹_›
    next hop => exact absurd hop ‹_›
    next => exact logsThrough_plain rfl s
  all_goals
    rename_i hop
    simp only [hop] at hfp ⊢
    exact hfp

theorem logsThrough_counted {i : JitSrc} (hsup : i.emitted.supported = true) (s : JState) :
    LogsThrough (i.emitted.ops ++ [countOp]) s (i.stores s.cpu) := by
  obtain ⟨hmode, hwatch⟩ := logsThrough_emitted hsup s
  cases hrun : runOps none (i.emitted.ops ++ [countOp]) s with
  | mk mode t =>
    obtain ⟨u, hu, hcpu, -⟩ := JitSrc.counted hrun
    rw [hu] at hmode hwatch
    constructor
    · rw [hrun]
      exact hmode
    · rw [hrun, hcpu]
      exact hwatch

theorem logsThrough_single {i : JitSrc} (hsup : i.emitted.supported = true) (s : JState) :
    LogsThrough i.single s (i.stores s.cpu) := by
  obtain ⟨hmode, hwatch⟩ := logsThrough_counted hsup s
  cases hrun : runOps none i.single s with
  | mk mode s' =>
    obtain ⟨t, ht, -, hs'⟩ := JitSrc.single_spec hrun
    rw [ht] at hmode hwatch
    have hsame : s'.cpu.watch = t.cpu.watch := by
      rw [hs']
      split <;> rfl
    constructor
    · rw [hrun]
      exact hmode
    · rw [hrun]
      exact hsame.trans hwatch

theorem blockStores_one (i : JitSrc) (s : JState) : blockStores [i] s = i.stores s.cpu := by
  unfold blockStores
  split <;> simp [blockStores]

/-- **A block logs the stores of its instructions**, in their order. -/
theorem Laid.logsThrough {jumps : Nat} {pc : U64} {src : List JitSrc} {ops : List SljitOp} (h : Laid jumps pc src ops) :
    ∀ s, LogsThrough ops s (blockStores src s) := by
  induction h with
  | stop hloads =>
    intro s
    obtain ⟨s', hrun, hmachine, -⟩ := runOps_loads hloads s
    constructor
    · rw [hrun]
      exact .inl rfl
    · rw [hrun]
      show s'.machine.watch = s.machine.watch
      rw [hmachine]
  | @jump jumps i hs hend =>
    intro s
    rw [blockStores_one]
    exact logsThrough_single hs s
  | @limit jumps i hs hend hcall hfull =>
    intro s
    rw [blockStores_one]
    exact logsThrough_counted hs s
  | @next jumps i hs hend hroom src ops hrest ih =>
    intro s
    obtain ⟨hmode, hwatch⟩ := logsThrough_single hs s
    unfold blockStores
    cases hrun : runOps none i.single s with
    | mk mode t =>
      rw [hrun] at hmode hwatch
      rcases hmode with rfl | rfl
      · obtain ⟨hmode', hwatch'⟩ := ih t
        constructor
        · rw [runOps_append, hrun]
          exact hmode'
        · rw [runOps_append, hrun, List.foldl_append, ← hwatch]
          exact hwatch'
      · constructor
        · rw [runOps_append, hrun]
          exact .inr (congrArg Prod.fst (runOps_skip hrest.not_label t))
        · rw [runOps_append, hrun]
          dsimp only
          rw [runOps_skip hrest.not_label, List.append_nil]
          exact hwatch

/-- The cached blocks are compiled blocks. -/
def BlocksMade (c : Cpu) : Prop :=
  ∀ j, c.jit = some j → ∀ n, (j.cache n).valid = true → (j.cache n).Made (j.cache n).guest_pc

omit [HostFp] in
theorem blocksMade_init {c : Cpu} (h : c.jit = some .init) : BlocksMade c := by
  intro j hj n hvalid
  rw [h] at hj
  cases hj
  cases hvalid

omit [HostFp] in
theorem lookupBlock_made {c : Cpu} {j : JitState} (h : BlocksMade c) (hj : c.jit = some j) :
    (lookupBlock j c).1.Made (lookupBlock j c).1.guest_pc := by
  unfold lookupBlock
  dsimp only
  split
  · exact ⟨j, c, rfl⟩
  next hcur =>
    rw [Bool.or_eq_true, not_or, Bool.not_eq_true, Bool.not_eq_true, Bool.not_eq_false'] at hcur
    exact h j hj _ hcur.1

/-- **`jit_exec` logs the stores of its block.** -/
theorem jitExec_watch {c : Cpu} (h : BlocksMade c) (undef : U64) :
    (jitExec undef c).2.watch = (jitStores undef c).foldl Watch.logged c.watch := by
  unfold jitStores
  cases hj : c.jit with
  | none =>
    unfold jitExec
    rw [hj]
    rfl
  | some j =>
    dsimp only
    cases hen : j.enabled with
    | false =>
      unfold jitExec
      rw [hj]
      dsimp only
      rw [hen]
      rfl
    | true =>
      have hlookup : (lookupBlock j c).2.watch = c.watch := lookupBlock_leads watch_rules.load (fun _ _ => rfl) j c
      rw [if_pos rfl]
      obtain ⟨-, ⟨hsrc, hnone⟩ | ⟨ops, hlaid, hcode⟩⟩ := (lookupBlock_made h hj).code
      · rw [hsrc]
        unfold jitExec
        rw [hj]
        dsimp only
        rw [if_neg (by rw [hen]; decide), hnone]
        exact hlookup
      · obtain ⟨hmode, hwatch⟩ := hlaid.logsThrough (blockEntry undef (lookupBlock j c).2)
        cases hrun : runOps none ops (blockEntry undef (lookupBlock j c).2) with
        | mk mode s' =>
          rw [hrun] at hmode hwatch
          rw [jitExec_run hj hen hcode hrun hmode, ← hlookup]
          exact hwatch

end Blocks

/-! ## Cached blocks stay compiled blocks -/

section Cached

variable [NetDevice]

def KeepsMade (c c' : Cpu) : Prop := BlocksMade c → BlocksMade c'

instance : IsPreorder Cpu KeepsMade where
  refl _ := id
  trans _ _ _ h h' := h' ∘ h

theorem keepsMade_of_jit {c c' : Cpu} (h : c'.jit = c.jit) : KeepsMade c c' := by
  intro hc j hj
  rw [h] at hj
  exact hc j hj

theorem blocksMade_flush (c : Cpu) : BlocksMade (jitFlush c) := by
  intro j hj n hvalid
  obtain ⟨j', -, rfl⟩ := Option.map_eq_some_iff.1 hj
  cases hvalid

theorem keepsMade_access {c c' : Cpu} (h : AccessFrame c c') : KeepsMade c c' := by
  obtain ⟨t, b, d, rfl⟩ := h
  exact keepsMade_of_jit rfl

theorem keepsMade_rules : StepRules KeepsMade where
  core h := keepsMade_of_jit h.jit
  load va size access := (rv64CpuLoad_frame va size access).mono fun _ _ => keepsMade_access
  store va size val := (cpuStore_frame va size val).mono fun _ _ => keepsMade_access
  trap c cause tval := by
    obtain ⟨r, p, pc, d, h⟩ := trap_frame c cause tval
    rw [h]
    exact keepsMade_of_jit rfl
  csrWrite c csr val := by
    by_cases hsatp : csr = 0x180
    · unfold csrWrite
      rw [if_pos hsatp]
      exact fun _ => blocksMade_flush _
    · obtain ⟨r, f, -, h⟩ := csrWrite_other hsatp c val
      rw [h]
      exact keepsMade_of_jit rfl
  tlbFlush _ _ := blocksMade_flush _
  jitFlush c _ := blocksMade_flush c

theorem BlocksMade.stored {c : Cpu} (h : BlocksMade c) {b : JitBlock} (hb : b.Made b.guest_pc) :
    BlocksMade (storeBlock b c) := by
  intro j hj n hvalid
  obtain ⟨j', hj', rfl⟩ := Option.map_eq_some_iff.1 hj
  unfold setAt at hvalid ⊢
  dsimp only at hvalid ⊢
  split
  · exact hb
  next hn =>
    rw [if_neg hn] at hvalid
    exact h j' hj' n hvalid

theorem keepsMade_lookup (j : JitState) (c : Cpu) : KeepsMade c (lookupBlock j c).2 := by
  intro hc
  unfold lookupBlock
  dsimp only
  split
  · have hcompiled := compileLoop_leads keepsMade_rules.load j.disabled_ops (maxInsns j) (.start c.pc) c hc
    exact hcompiled.stored ⟨j, c, rfl⟩
  · exact hc

variable [HostFp]

/-- **Every move keeps the cached blocks compiled blocks.** -/
theorem blocksMade_move {c : Cpu} (h : BlocksMade c) (m : Move) : BlocksMade (m.run c) := by
  have hjit (undef : U64) (c : Cpu) : KeepsMade c (jitExec undef c).2 :=
    BlockRules.jitExec keepsMade_rules.toBlock (fun _ _ => keepsMade_of_jit rfl) (fun j _ => keepsMade_lookup j c) undef
  rcases keepsMade_rules.machineStep_jit (fun _ _ => keepsMade_of_jit rfl) hjit (machineStep_iff.2 ⟨m, rfl⟩) with
    hm | ⟨d, hd, hret | hret⟩
  · exact hm h
  · exact keepsMade_of_jit hret.jit (hd h)
  · obtain ⟨r, p, g, hs, -⟩ := sret_frame d
    rw [hs] at hret
    exact keepsMade_of_jit hret.jit (hd h)

end Cached

/-! ## Runs -/

section Runs

variable [NetDevice]

theorem interrupts_watch (c : Cpu) : (checkInterrupts c).1.watch = c.watch := by
  have hpoll : (pollNet (updateMip c)).watch = c.watch := by
    unfold pollNet
    split <;> rfl
  unfold checkInterrupts
  dsimp only
  split
  next cause _ => exact (trap_watch _ cause 0).trans hpoll
  · exact hpoll

variable [HostFp]

/-- The stores that a move tries. -/
def Move.stores (c : Cpu) : Move → List StoreTry
  | .step => stepStores c
  | .jit undef => jitStores undef c
  | .interrupts => []
  | .tick .. => []

/-- The stores that the moves try, one after the other. -/
def runStores : Cpu → List Move → List StoreTry
  | _, [] => []
  | c, m :: moves => m.stores c ++ runStores (m.run c) moves

/-- **A move logs the stores that it tries.** -/
theorem move_watch {c : Cpu} (h : BlocksMade c) (m : Move) :
    (m.run c).watch = (m.stores c).foldl Watch.logged c.watch := by
  cases m with
  | step => exact rv64Step_watch c
  | jit undef => exact jitExec_watch h undef
  | interrupts => exact interrupts_watch c
  | tick mtime cycle halted pendingIrq debugHalt => rfl

/-- **A run logs the stores that it tries**: the watchpoint's test decides on each. -/
theorem run_watch : ∀ (moves : List Move) {c : Cpu}, BlocksMade c →
    (moves.foldl Move.run c).watch = (runStores c moves).foldl Watch.logged c.watch
  | [], _, _ => rfl
  | m :: moves, c, h => by
    unfold runStores
    rw [List.foldl_append, ← move_watch h m]
    exact run_watch moves (blocksMade_move h m)

theorem runStores_append : ∀ (a : List Move) (c : Cpu) (b : List Move),
    runStores c (a ++ b) = runStores c a ++ runStores (a.foldl Move.run c) b
  | [], _, _ => rfl
  | m :: a, c, b => by
    rw [List.cons_append, runStores, runStores, runStores_append a, List.append_assoc, List.foldl_cons]

/-! ### Sizes -/

omit [HostFp] in
theorem fpStores_sized (insn : U32) (pc : U64) (c : Cpu) : ∀ t ∈ fpStores insn pc c, t.Sized := by
  unfold fpStores
  split
  · simp [tryStore, StoreTry.Sized]
  · split <;> simp [tryStore, StoreTry.Sized]

omit [HostFp] in
theorem amoStores_sized (insn : U32) (pc : U64) (c : Cpu) : ∀ t ∈ amoStores insn pc c, t.Sized := by
  intro t ht
  unfold amoStores at ht
  split at ht
  next old d _ =>
    obtain ⟨val, -, rfl⟩ := List.mem_map.1 ht
    exact amoBytes_size insn
  next => cases ht

omit [HostFp] in
theorem insnStores_sized (insn : U32) (pc : U64) (c : Cpu) : ∀ t ∈ insnStores insn pc c, t.Sized := by
  intro t ht
  unfold insnStores at ht
  split at ht
  · obtain ⟨size, hsize, rfl⟩ := List.mem_map.1 ht
    exact storeSize_size (Option.mem_toList.1 hsize)
  · exact amoStores_sized insn pc c t ht
  · exact fpStores_sized insn pc c t ht
  · cases ht

omit [HostFp] in
theorem stepStores_sized (c : Cpu) : ∀ t ∈ stepStores c, t.Sized := by
  intro t ht
  unfold stepStores at ht
  split at ht
  · cases ht
  · split at ht
    · split at ht
      · exact insnStores_sized _ _ _ t ht
      · cases ht
    · cases ht

omit [HostFp] in
theorem JitSrc.stores_sized (i : JitSrc) (c : Cpu) : ∀ t ∈ i.stores c, t.Sized := by
  intro t ht
  unfold JitSrc.stores at ht
  split at ht
  · obtain rfl := List.mem_singleton.1 ht
    exact ⟨jitSize_pos _, jitSize_le _⟩
  · exact fpStores_sized _ _ _ t ht
  · cases ht

theorem blockStores_sized : ∀ (src : List JitSrc) (s : JState), ∀ t ∈ blockStores src s, t.Sized
  | [], _, _, ht => nomatch ht
  | i :: src, s, t, ht => by
    unfold blockStores at ht
    rcases List.mem_append.1 ht with ht | ht
    · exact i.stores_sized _ t ht
    · split at ht
      · exact blockStores_sized src _ t ht
      · cases ht

theorem moveStores_sized (c : Cpu) (m : Move) : ∀ t ∈ m.stores c, t.Sized := by
  cases m with
  | step => exact stepStores_sized c
  | jit undef =>
    intro t ht
    change t ∈ jitStores undef c at ht
    unfold jitStores at ht
    split at ht
    · cases ht
    · split at ht
      · exact blockStores_sized _ _ t ht
      · cases ht
  | interrupts => exact fun _ ht => nomatch ht
  | tick mtime cycle halted pendingIrq debugHalt => exact fun _ ht => nomatch ht

theorem runStores_sized : ∀ (moves : List Move) (c : Cpu), ∀ t ∈ runStores c moves, t.Sized
  | [], _, _, ht => nomatch ht
  | m :: moves, c, t, ht => by
    unfold runStores at ht
    rcases List.mem_append.1 ht with ht | ht
    · exact moveStores_sized c m t ht
    · exact runStores_sized moves _ t ht

/-! ### The law -/

/-- The log receives the stores that complete and reach into the watched range, each once and in their order. -/
def WatchExact (c : Cpu) (moves : List Move) : Prop :=
  (moves.foldl Move.run c).watch =
    (((runStores c moves).filter c.watch.due).map StoreTry.entry).foldl Watch.receive c.watch

/-- **In a run whose stores into the watched range complete**, and whose ends do not wrap, the log is exact in every
state. -/
theorem watchExact_of_sees {c : Cpu} (h : BlocksMade c) {moves : List Move}
    (hsees : ∀ t ∈ runStores c moves, c.watch.Sees t) (n : Nat) : WatchExact c (moves.take n) := by
  have htaken : ∀ t ∈ runStores c (moves.take n), t ∈ runStores c moves := by
    intro t ht
    rw [← List.take_append_drop n moves, runStores_append]
    exact List.mem_append_left _ ht
  unfold WatchExact
  rw [run_watch _ h]
  exact logged_exact _ _ (runStores_sized _ c) fun t ht => hsees t (htaken t ht)

end Runs

/-! ## A store that faults -/

section Faulting

local instance watchNet : NetDevice := NetDevice.silent
local instance watchFp : HostFp := HostFp.zero

/-- Supervisor mode with blocks, about to execute SD x2, 0(x1) at the start of the one gigabyte page that is mapped;
`va` is watched, and is what x1 holds. -/
def watchedCpu (va : U64) : Cpu :=
  let c := rv64Init (Mem.write (Mem.write (fun _ => 0) 0x1008 8 0x2000000F) 0 4 0x0020B023) 0x80000000
  { c with
    priv := privS
    pc := 0x40000000
    csr := { c.csr with satp := 0x8000000000080001 }
    x := setAt c.x 1 va
    jit := some .init
    dbg := { c.dbg with watch_addr := va, watch_size := 8, watch_active := true } }

theorem watchedCpu_made (va : U64) : BlocksMade (watchedCpu va) := blocksMade_init rfl

/-- **The store of a block faults, and so does its second try by the interpreter**: both are in the log. -/
theorem not_watchExact_fault :
    BlocksMade (watchedCpu 0x80000008) ∧ ¬ WatchExact (watchedCpu 0x80000008) [.jit 0, .step] := by
  refine ⟨watchedCpu_made _, fun h => ?_⟩
  have hdue : ((runStores (watchedCpu 0x80000008) [.jit 0, .step]).filter (watchedCpu 0x80000008).watch.due).map
      StoreTry.entry = [] := List.map_eq_nil_iff.2 (List.eq_nil_of_length_eq_zero (by decide +kernel))
  have hcount : ([Move.jit 0, .step].foldl Move.run (watchedCpu 0x80000008)).watch.count = 2 := by decide +kernel
  rw [show _ = _ from h, hdue] at hcount
  cases hcount

/-- The same store where it is mapped. -/
theorem watchExact_of_sees_mapped :
    (∀ t ∈ runStores (watchedCpu 0x40000100) [.jit 0], (watchedCpu 0x40000100).watch.Sees t) ∧
      WatchExact (watchedCpu 0x40000100) ([.jit 0].take 1) := by
  have hsees : ∀ t ∈ runStores (watchedCpu 0x40000100) [.jit 0], (watchedCpu 0x40000100).watch.Sees t := by
    decide +kernel
  exact ⟨hsees, watchExact_of_sees (watchedCpu_made _) hsees 1⟩

end Faulting

end PgLinux
