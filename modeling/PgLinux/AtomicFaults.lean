import PgLinux.FaultAddress
import PgLinux.TornStores
/-!
# AtomicFaults — LR, SC and AMOs that trap

All of them load first, with `ACCESS_READ`; only the store half faults as a store.
-/
namespace PgLinux

open Prog

def excLoadAccess : U64 := 5
def excStoreAccess : U64 := 7

def IsLoadCause (cause : U64) : Prop := cause = excLoadAccess ∨ cause = excLoadPageFault
def IsStoreCause (cause : U64) : Prop := cause = excStoreAccess ∨ cause = excStorePageFault

instance (cause : U64) : Decidable (IsStoreCause cause) := inferInstanceAs (Decidable (_ ∨ _))

/-- LR, SC or an AMO, of 32 or 64 bits. -/
structure IsAtomic (insn : U32) : Prop where
  opcode : PgLinux.opcode insn = 0x2F
  width : PgLinux.funct3 insn = 2 ∨ PgLinux.funct3 insn = 3
  op : PgLinux.funct5 insn = 0x02 ∨ PgLinux.funct5 insn = 0x03 ∨ ∃ op : AmoOp, PgLinux.funct5 insn = op.funct5

def IsLr (insn : U32) : Prop := funct5 insn = 0x02

section Faults

variable [NetDevice] {insn : U32} {nextPc : U64} {c c' : Cpu}

/-- The load half. -/
def AmoLoads (insn : U32) (c : Cpu) (old : U64) (m : Cpu) : Prop :=
  rv64CpuLoad (c.x (rs1 insn)) (amoBytes insn) .read c = .ok old m

/-- An atomic instruction that trapped: a load cause for LR, a store cause for the others, and no data, register or
reservation changed. -/
structure AtomicFaultOk (insn : U32) (c c' : Cpu) : Prop where
  lr : IsLr insn → IsLoadCause c'.trapInfo.cause
  store : ¬ IsLr insn → IsStoreCause c'.trapInfo.cause
  data : ∀ old m val, AmoLoads insn c old m → amoStored insn m old = some val →
    ¬ StoreWrites (c.x (rs1 insn)) (amoBytes insn) val m
  x : c'.x = c.x
  reservation : c'.reservation = c.reservation

/-- The address can be loaded, and the store half is not torn between two pages. -/
def HalvesOk (insn : U32) (c : Cpu) : Prop :=
  ∃ old m, AmoLoads insn c old m ∧
    ∀ val, amoStored insn m old = some val → ¬ Torn (c.x (rs1 insn)) (amoBytes insn) val m

/-- **An atomic instruction traps in its load half or in its store half.** -/
theorem execAmo_error (h : IsAtomic insn) (he : execAmo insn nextPc c = .error () c') :
    (∃ exc e, rv64CpuLoad (c.x (rs1 insn)) (amoBytes insn) .read c = .error exc e ∧ c' = trap e exc (c.x (rs1 insn))) ∨
      ∃ old m val exc e, AmoLoads insn c old m ∧ amoStored insn m old = some val ∧
        cpuStore (c.x (rs1 insn)) (amoBytes insn) val m = .error exc e ∧ c' = trap e exc (c.x (rs1 insn)) := by
  have hframe := rv64CpuLoad_frame (c.x (rs1 insn)) (amoBytes insn) .read c
  unfold execAmo at he
  rw [get_bind_apply] at he
  dsimp only at he
  rcases bind_eq_error.1 he with he | ⟨old, m, hload, he⟩
  · exact .inl (orTrap_eq_error.1 he)
  rw [orTrap_eq_ok] at hload
  change AmoLoads insn c old m at hload
  rw [hload] at hframe
  have hx : m.x = c.x := by
    obtain ⟨t, b, d, rfl⟩ := hframe
    rfl
  refine .inr ⟨old, m, ?_⟩
  split at he
  · cases he
  next hlr =>
    split at he
    next hsc =>
      rcases bind_eq_error.1 he with he | ⟨_, _, -, he⟩
      · unfold execSc at he
        rw [get_bind_apply] at he
        dsimp only at he
        split at he
        next hres =>
          rw [← hx] at hres
          rcases bind_eq_error.1 he with he | ⟨_, _, -, he⟩
          · obtain ⟨exc, e, hstore, rfl⟩ := orTrap_eq_error.1 he
            exact ⟨_, exc, e, hload, amoStored_sc hsc hres, hstore, rfl⟩
          · cases he
        · cases he
      · cases he
    next hsc =>
      rw [get_bind_apply] at he
      obtain ⟨op, hop⟩ := (h.op.resolve_left hlr).resolve_left hsc
      have hresult (loaded : U64) : amoResult ((funct7 insn).extractLsb' 2 5) loaded (m.x (rs2 insn)) =
          some (op.spec loaded (m.x (rs2 insn))) :=
        (congrArg (amoResult · loaded (m.x (rs2 insn))) hop).trans (amoResult_eq op loaded _)
      rw [hresult] at he
      rcases bind_eq_error.1 he with he | ⟨_, _, -, he⟩
      · obtain ⟨exc, e, hstore, rfl⟩ := orTrap_eq_error.1 he
        exact ⟨_, exc, e, hload, amoStored_amo hlr hsc (hresult _), hstore, rfl⟩
      · cases he

omit [NetDevice] in
theorem trap_amo_frame {e : Cpu} (h : AccessFrame c e) (cause tval : U64) :
    (trap e cause tval).x = c.x ∧ (trap e cause tval).reservation = c.reservation := by
  obtain ⟨t, b, d, rfl⟩ := h
  obtain ⟨r, p, pc, g, htrap⟩ := trap_frame { c with tlb := t, bus := b, dbg := d } cause tval
  rw [htrap]
  exact ⟨rfl, rfl⟩

variable [HostFp]

/-- **A trapping LR** is reported as it should be, and so is any other exactly when its load half succeeds and its store half
is not torn. -/
theorem atomicFaultOk_iff {pc : U64} (h : IsAtomic insn) (he : execInsn insn pc nextPc c = .error () c') :
    AtomicFaultOk insn c c' ↔ IsLr insn ∨ HalvesOk insn c := by
  have hn := amoBytes_size insn
  rw [execInsn_atomic h.opcode] at he
  rcases execAmo_error h he with ⟨exc, e, hload, rfl⟩ | ⟨old, m, val, exc, e, hload, hval, hstore, rfl⟩
  · have hfault : MemOp.Faults (.load (c.x (rs1 insn)) (amoBytes insn) .read) c exc e := hload
    obtain ⟨rfl, -⟩ := hfault.failing (by show amoBytes insn ≤ 4096; omega)
    obtain ⟨hx, hres⟩ := trap_amo_frame hfault.frame excLoadPageFault (c.x (rs1 insn))
    have hcause : (trap e excLoadPageFault (c.x (rs1 insn))).trapInfo.cause = excLoadPageFault := by rw [trapInfo_trap]
    have hno {old : U64} {m : Cpu} (h : AmoLoads insn c old m) : False := by
      cases h.symm.trans hload
    constructor
    · intro hok
      by_cases hlr : IsLr insn
      · exact .inl hlr
      · have hstore : IsStoreCause (trap e excLoadPageFault (c.x (rs1 insn))).trapInfo.cause := hok.store hlr
        rw [hcause] at hstore
        exact absurd hstore (by decide)
    · rintro (hlr | ⟨old, m, hload', -⟩)
      · exact ⟨fun _ => .inr hcause, fun hn => absurd hlr hn, fun _ _ _ h => (hno h).elim, hx, hres⟩
      · exact (hno hload').elim
  · have hlr : ¬ IsLr insn := by
      intro hlr
      unfold amoStored at hval
      rw [if_pos (show funct5 insn = 0x02 from hlr)] at hval
      cases hval
    have hfault : MemOp.Faults (.store (c.x (rs1 insn)) (amoBytes insn) val) m exc e := hstore
    obtain ⟨rfl, -⟩ := hfault.failing (by show amoBytes insn ≤ 4096; omega)
    have hframe := rv64CpuLoad_frame (c.x (rs1 insn)) (amoBytes insn) .read c
    rw [hload] at hframe
    obtain ⟨hx, hres⟩ := trap_amo_frame (trans_of AccessFrame hframe hfault.frame) excStorePageFault (c.x (rs1 insn))
    have hcause : (trap e excStorePageFault (c.x (rs1 insn))).trapInfo.cause = excStorePageFault := by rw [trapInfo_trap]
    constructor
    · exact fun hok => .inr ⟨old, m, hload, fun val' hval' htorn => hok.data old m val' hload hval' htorn.writes.1⟩
    · rintro (hlr' | ⟨old', m', hload', htorn⟩)
      · exact absurd hlr' hlr
      · refine ⟨fun h => absurd h hlr, fun _ => .inr hcause, fun old₁ m₁ val₁ hload₁ hval₁ hwrites => ?_, hx, hres⟩
        cases hload.symm.trans hload₁
        cases hload.symm.trans hload'
        cases hval.symm.trans hval₁
        exact htorn val hval (torn_of_writes (by omega) hstore hwrites)

end Faults

section Unwritable

local instance unmappedNet : NetDevice := NetDevice.silent
local instance unmappedFp : HostFp := HostFp.zero

/-- Supervisor mode, x1 pointing to a page that is not mapped. -/
def unmappedCpu : Cpu := { superpageCpu with x := setAt superpageCpu.x 1 0x80000000 }

/-- The same mode, x1 pointing to a page that can be read and not written. -/
def readOnlyCpu : Cpu :=
  let c := rv64Init (Mem.write (fun _ => 0) 0x1008 8 0x20000003) 0x80000000
  { c with priv := privS, csr := { c.csr with satp := 0x8000000000080001 }, x := setAt c.x 1 0x40000000 }

/-- AMOADD.W x3, x2, (x1) reports a load page fault. -/
theorem not_atomicFaultOk_amo : ∃ insn c c', IsAtomic insn ∧ execInsn insn 0 4 c = .error () c' ∧ ¬ AtomicFaultOk insn c c' := by
  refine ⟨0x0020A1AF, unmappedCpu, _, ⟨rfl, .inl rfl, .inr (.inr ⟨.add, rfl⟩)⟩, eq_error_of_failure (by decide +kernel), fun hok => ?_⟩
  have hcause := hok.store (show ¬ (funct5 0x0020A1AF = 0x02) by decide)
  revert hcause
  decide +kernel

/-- LR.W x3, (x1) of the page that is not mapped, and the AMOADD.W of the one that can only be read. -/
theorem atomicFaultOk_halves : AtomicFaultOk 0x1000A1AF unmappedCpu (final (execInsn 0x1000A1AF 0 4 unmappedCpu)) ∧
    AtomicFaultOk 0x0020A1AF readOnlyCpu (final (execInsn 0x0020A1AF 0 4 readOnlyCpu)) := by
  have hload : AmoLoads 0x0020A1AF readOnlyCpu 0 (final (rv64CpuLoad 0x40000000 4 .read readOnlyCpu)) :=
    eq_ok_of_answer (by decide +kernel)
  have hhalves : HalvesOk 0x0020A1AF readOnlyCpu := ⟨0, _, hload, fun _ _ htorn => absurd htorn.1 (by decide)⟩
  exact ⟨(atomicFaultOk_iff ⟨rfl, .inl rfl, .inl rfl⟩ (eq_error_of_failure (by decide +kernel))).2 (.inl rfl),
    (atomicFaultOk_iff ⟨rfl, .inl rfl, .inr (.inr ⟨.add, rfl⟩)⟩ (eq_error_of_failure (by decide +kernel))).2 (.inr hhalves)⟩

end Unwritable

end PgLinux
