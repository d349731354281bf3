import PgLinux.Frames
/-!
# GhostAccess — loads and stores with a ghost beside the machine

The programs of `Mmu` again, on a machine with a ghost.  The ghost is told of each translation, of each access behind the
bus and of each hit of a fast path; the machine does not see it.
-/
namespace PgLinux

open Prog

structure Ghosted (G : Type) where
  cpu : Cpu
  ghost : G

/-- What the ghost makes of a part of an access: its address, the answer if there is one, and the machine before and
after. -/
structure Ghosts (G : Type) where
  translate : U64 → AccessType → Option U64 → Cpu → Cpu → G → G
  fast : U64 → AccessType → U64 → Cpu → Cpu → G → G
  bus : U64 → Cpu → Cpu → G → G

/-- `m`, with its ghost. -/
def ghosted {G α : Type} (g : Option α → Cpu → Cpu → G → G) (m : Access α) : EStateM U64 (Ghosted G) α := fun s =>
  match m s.cpu with
  | .ok v c => .ok v ⟨c, g (some v) s.cpu c s.ghost⟩
  | .error exc c => .error exc ⟨c, g none s.cpu c s.ghost⟩

theorem final_ghosted {G α : Type} (g : Option α → Cpu → Cpu → G → G) (m : Access α) (s : Ghosted G) :
    ∃ v, final (ghosted g m s) = ⟨final (m s.cpu), g v s.cpu (final (m s.cpu)) s.ghost⟩ := by
  unfold ghosted
  cases m s.cpu with
  | ok v c => exact ⟨some v, rfl⟩
  | error exc c => exact ⟨none, rfl⟩

section Ghosted

variable {G α : Type} {g : Option α → Cpu → Cpu → G → G} {m : Access α} {s t : Ghosted G} {v : α} {exc : U64}

theorem ghosted_of_ok {c : Cpu} (h : m s.cpu = .ok v c) : ghosted g m s = .ok v ⟨c, g (some v) s.cpu c s.ghost⟩ := by
  unfold ghosted
  rw [h]

theorem ghosted_of_error {c : Cpu} (h : m s.cpu = .error exc c) :
    ghosted g m s = .error exc ⟨c, g none s.cpu c s.ghost⟩ := by
  unfold ghosted
  rw [h]

theorem ghosted_eq_ok : ghosted g m s = .ok v t ↔ ∃ c, m s.cpu = .ok v c ∧ t = ⟨c, g (some v) s.cpu c s.ghost⟩ := by
  constructor
  · intro h
    cases hm : m s.cpu with
    | ok u c =>
      rw [ghosted_of_ok hm] at h
      cases h
      exact ⟨c, rfl, rfl⟩
    | error e c =>
      rw [ghosted_of_error hm] at h
      cases h
  · rintro ⟨c, hm, rfl⟩
    exact ghosted_of_ok hm

theorem ghosted_eq_error : ghosted g m s = .error exc t ↔ ∃ c, m s.cpu = .error exc c ∧ t = ⟨c, g none s.cpu c s.ghost⟩ := by
  constructor
  · intro h
    cases hm : m s.cpu with
    | ok u c =>
      rw [ghosted_of_ok hm] at h
      cases h
    | error e c =>
      rw [ghosted_of_error hm] at h
      cases h
      exact ⟨c, rfl, rfl⟩
  · rintro ⟨c, hm, rfl⟩
    exact ghosted_of_error hm

end Ghosted

section Programs

variable {G : Type} (γ : Ghosts G) [NetDevice]

def translateG (va : U64) (access : AccessType) : EStateM U64 (Ghosted G) U64 :=
  ghosted (γ.translate va access) (rv64Translate va access)

def busLoadG (pa : U64) (size : Nat) : EStateM U64 (Ghosted G) U64 := ghosted (fun _ => γ.bus pa) (busLoadM pa size)

def busStoreG (pa : U64) (size : Nat) (val : U64) : EStateM U64 (Ghosted G) Unit :=
  ghosted (fun _ => γ.bus pa) (busStoreM pa size val)

def loadBytesG (va : U64) (access : AccessType) : Nat → Nat → U64 → EStateM U64 (Ghosted G) U64
  | 0, _, result => return result
  | n + 1, i, result => do
    let pa ← translateG γ (va + BitVec.ofNat 64 i) access
    let v ← busLoadG γ pa 1
    loadBytesG va access n (i + 1) (result ||| (v &&& 0xFF) <<< (i * 8))

/-- `rv64CpuLoad`. -/
def loadG (va : U64) (size : Nat) (access : AccessType) : EStateM U64 (Ghosted G) U64 := do
  let s ← get
  match loadFast s.cpu va size access with
  | some p => ghosted (fun _ => γ.fast va access p) fun c => .ok (c.bus.mem.ram.read p size) c
  | none =>
    if crossesPage va size then loadBytesG γ va access size 0 0
    else
      let pa ← translateG γ va access
      busLoadG γ pa size

def storeBytesG (va val : U64) : Nat → Nat → EStateM U64 (Ghosted G) Unit
  | 0, _ => return ()
  | n + 1, i => do
    let pa ← translateG γ (va + BitVec.ofNat 64 i) .write
    busStoreG γ pa 1 ((val >>> (i * 8)) &&& 0xFF)
    storeBytesG va val n (i + 1)

def storeAtG (va : U64) (size : Nat) (val : U64) : EStateM U64 (Ghosted G) Unit := do
  let s ← get
  match storeFast s.cpu va size with
  | some p => ghosted (fun _ => γ.fast va .write p) fun c => .ok () (c.writeRam p size val)
  | none =>
    if crossesPage va size then storeBytesG γ va val size 0
    else
      let pa ← translateG γ va .write
      busStoreG γ pa size val

/-- `cpuStore`. -/
def storeG (va : U64) (size : Nat) (val : U64) : EStateM U64 (Ghosted G) Unit := do
  ghosted (fun _ _ _ => id) (modify (logStore va size val))
  storeAtG γ va size val

end Programs

/-! ## The ghost erased -/

section Erase

variable {G α β : Type}

/-- A result without the ghost. -/
def erase : EStateM.Result U64 (Ghosted G) α → EStateM.Result U64 Cpu α
  | .ok v s => .ok v s.cpu
  | .error exc s => .error exc s.cpu

/-- The program with the ghost is the program. -/
def Erases (mG : EStateM U64 (Ghosted G) α) (m : Access α) : Prop := ∀ s, erase (mG s) = m s.cpu

theorem erases_ghosted (g : Option α → Cpu → Cpu → G → G) (m : Access α) : Erases (ghosted g m) m := by
  intro s
  unfold ghosted
  cases m s.cpu <;> rfl

theorem erases_pure (a : α) : Erases (pure a : EStateM U64 (Ghosted G) α) (pure a) := fun _ => rfl

theorem erases_bind {mG : EStateM U64 (Ghosted G) α} {m : Access α} {fG : α → EStateM U64 (Ghosted G) β}
    {f : α → Access β} (hm : Erases mG m) (hf : ∀ a, Erases (fG a) (f a)) : Erases (mG >>= fG) (m >>= f) := by
  intro s
  have hs := hm s
  cases hr : mG s with
  | ok v t =>
    rw [hr] at hs
    rw [bind_of_ok hr, bind_of_ok hs.symm]
    exact hf v t
  | error exc t =>
    rw [hr] at hs
    rw [bind_of_error hr, bind_of_error hs.symm]
    rfl

theorem erases_get_bind {fG : Ghosted G → EStateM U64 (Ghosted G) β} {f : Cpu → Access β}
    (hf : ∀ s, erase (fG s s) = f s.cpu s.cpu) : Erases (get >>= fG) (get >>= f) := hf

theorem Erases.final {mG : EStateM U64 (Ghosted G) α} {m : Access α} (h : Erases mG m) (s : Ghosted G) :
    (Prog.final (mG s)).cpu = Prog.final (m s.cpu) := by
  rw [← h s]
  cases mG s <;> rfl

theorem Erases.ok {mG : EStateM U64 (Ghosted G) α} {m : Access α} (h : Erases mG m) {s : Ghosted G} {v : α} {c : Cpu}
    (hm : m s.cpu = .ok v c) : ∃ t, mG s = .ok v t ∧ t.cpu = c := by
  have hs := h s
  rw [hm] at hs
  cases hr : mG s with
  | ok w t =>
    rw [hr] at hs
    cases hs
    exact ⟨t, rfl, rfl⟩
  | error exc t =>
    rw [hr] at hs
    cases hs

theorem Erases.error {mG : EStateM U64 (Ghosted G) α} {m : Access α} (h : Erases mG m) {s : Ghosted G} {exc : U64}
    {c : Cpu} (hm : m s.cpu = .error exc c) : ∃ t, mG s = .error exc t ∧ t.cpu = c := by
  have hs := h s
  rw [hm] at hs
  cases hr : mG s with
  | ok w t =>
    rw [hr] at hs
    cases hs
  | error e t =>
    rw [hr] at hs
    cases hs
    exact ⟨t, rfl, rfl⟩

variable [NetDevice] (γ : Ghosts G)

theorem erases_loadBytes (va : U64) (access : AccessType) : ∀ (n i : Nat) (r : U64),
    Erases (loadBytesG γ va access n i r) (loadBytes va access n i r)
  | 0, _, r => erases_pure r
  | n + 1, i, _ => erases_bind (erases_ghosted _ _) fun _ => erases_bind (erases_ghosted _ _) fun _ =>
      erases_loadBytes va access n (i + 1) _

/-- **A load with a ghost is the load.** -/
theorem erases_load (va : U64) (size : Nat) (access : AccessType) :
    Erases (loadG γ va size access) (rv64CpuLoad va size access) := by
  refine erases_get_bind fun s => ?_
  cases loadFast s.cpu va size access with
  | some p => rfl
  | none =>
    dsimp only
    split
    · exact erases_loadBytes γ va access size 0 0 s
    · exact erases_bind (erases_ghosted _ _) (fun _ => erases_ghosted _ _) s

theorem erases_storeBytes (va val : U64) : ∀ (n i : Nat), Erases (storeBytesG γ va val n i) (storeBytes va val n i)
  | 0, _ => erases_pure ()
  | n + 1, i => erases_bind (erases_ghosted _ _) fun _ => erases_bind (erases_ghosted _ _) fun _ =>
      erases_storeBytes va val n (i + 1)

/-- **A store with a ghost is the store.** -/
theorem erases_store (va : U64) (size : Nat) (val : U64) : Erases (storeG γ va size val) (cpuStore va size val) := by
  refine erases_bind (erases_ghosted _ _) fun _ => erases_get_bind fun s => ?_
  cases storeFast s.cpu va size with
  | some p => rfl
  | none =>
    dsimp only
    split
    · exact erases_storeBytes γ va val size 0 s
    · exact erases_bind (erases_ghosted _ _) (fun _ => erases_ghosted _ _) s

end Erase

/-! ## Where a load or a store leads -/

/-- What a preorder has to allow: the parts of an access, the fast paths aside. -/
structure GhostRules {G : Type} [NetDevice] (γ : Ghosts G) (R : Ghosted G → Ghosted G → Prop) : Prop where
  translate : ∀ va access, Leads R (translateG γ va access)
  busLoad : ∀ pa size, Leads R (busLoadG γ pa size)
  busStore : ∀ pa size val, Leads R (busStoreG γ pa size val)

section Rules

variable {G : Type} {γ : Ghosts G} {R : Ghosted G → Ghosted G → Prop} [NetDevice] [IsPreorder (Ghosted G) R]

theorem GhostRules.loadBytes (h : GhostRules γ R) (va : U64) (access : AccessType) : ∀ (n i : Nat) (r : U64),
    Leads R (loadBytesG γ va access n i r)
  | 0, _, _ => leads_pure _
  | n + 1, i, _ => leads_bind (h.translate _ _) fun _ => leads_bind (h.busLoad _ _) fun _ =>
      h.loadBytes va access n (i + 1) _

/-- The slow path of a load. -/
theorem GhostRules.slowLoad (h : GhostRules γ R) (va : U64) (size : Nat) (access : AccessType) :
    Leads R (if crossesPage va size then loadBytesG γ va access size 0 0
      else do busLoadG γ (← translateG γ va access) size) :=
  leads_ite (h.loadBytes va access size 0 0) (leads_bind (h.translate va access) fun pa => h.busLoad pa size)

theorem GhostRules.storeBytes (h : GhostRules γ R) (va val : U64) : ∀ (n i : Nat), Leads R (storeBytesG γ va val n i)
  | 0, _ => leads_pure _
  | n + 1, i => leads_bind (h.translate _ _) fun _ => leads_bind (h.busStore _ _ _) fun _ =>
      h.storeBytes va val n (i + 1)

/-- The slow path of a store. -/
theorem GhostRules.slowStore (h : GhostRules γ R) (va : U64) (size : Nat) (val : U64) :
    Leads R (if crossesPage va size then storeBytesG γ va val size 0
      else do busStoreG γ (← translateG γ va .write) size val) :=
  leads_ite (h.storeBytes va val size 0) (leads_bind (h.translate va .write) fun pa => h.busStore pa size val)

end Rules

section Paths

variable {G : Type} (γ : Ghosts G) [NetDevice] {s : Ghosted G} {va : U64} {size : Nat}

theorem loadG_hit {access : AccessType} {p : U64} (h : loadFast s.cpu va size access = some p) :
    loadG γ va size access s = .ok (s.cpu.bus.mem.ram.read p size) ⟨s.cpu, γ.fast va access p s.cpu s.cpu s.ghost⟩ := by
  unfold loadG
  rw [get_bind_apply, h]
  rfl

theorem loadG_miss {access : AccessType} (h : loadFast s.cpu va size access = none) :
    loadG γ va size access s = (if crossesPage va size then loadBytesG γ va access size 0 0
      else do busLoadG γ (← translateG γ va access) size) s := by
  unfold loadG
  rw [get_bind_apply, h]

theorem storeAtG_hit {p : U64} (h : storeFast s.cpu va size = some p) (val : U64) :
    storeAtG γ va size val s =
      .ok () ⟨s.cpu.writeRam p size val, γ.fast va .write p s.cpu (s.cpu.writeRam p size val) s.ghost⟩ := by
  unfold storeAtG
  rw [get_bind_apply, h]
  rfl

theorem storeAtG_miss (h : storeFast s.cpu va size = none) (val : U64) :
    storeAtG γ va size val s = (if crossesPage va size then storeBytesG γ va val size 0
      else do busStoreG γ (← translateG γ va .write) size val) s := by
  unfold storeAtG
  rw [get_bind_apply, h]

theorem storeG_logged (s : Ghosted G) (va : U64) (size : Nat) (val : U64) :
    storeG γ va size val s = storeAtG γ va size val ⟨logStore va size val s.cpu, s.ghost⟩ := rfl

end Paths

end PgLinux
