import PgLinux.Worker
import PgLinux.Lib.Runs
/-!
# RamMapping — whose RAM a backend looks at

Every BOOT puts guest RAM into a new segment and exports its handle; a backend maps the segment it finds at its first
call that needs RAM and keeps the mapping for as long as it lives.  The CPU state next to it is the worker's last copy.
Segments and shared states are numbered in the order they are made, and a VM instance goes by the number of its segment.
-/
namespace PgLinux

/-! ## Workers and backends -/

/-- A machine, and the segment of the BOOT that made it. -/
structure Machine where
  seg : Nat
  cpu : Cpu

/-- `SharedVMState` with the worker it was made for.  `ram_dsm_handle` is `none` until it is valid, `cpu` until the first
copy, and `booting` is the segment of the BOOT that the worker is at.  `booted` is a ghost: the segment of its last BOOT
that succeeded. -/
structure Shared where
  worker_ready : Bool
  ram_dsm_handle : Option Nat
  cpu : Option Machine
  vm_cpu : Option Machine
  booting : Option Nat
  booted : Option Nat

def Shared.fresh : Shared := ⟨true, none, none, none, none, none⟩

/-- The statics of a backend: the shared state and the RAM segment it has mapped. -/
structure Client where
  vm_dsm : Option Nat
  frontend_ram : Option Nat

/-- What a call that inspects or saves the machine puts together. -/
structure Inspection where
  seg : Nat
  ram : Mem
  cpu : Option Machine

/-- The segments, the shared states, the backends, and what the last call has seen if it was an inspection. -/
structure Host where
  segments : Nat → Mem
  next_seg : Nat
  shared : Nat → Shared
  next_dsm : Nat
  clients : Nat → Client
  seen : Option Inspection

def Host.start : Host := ⟨fun _ _ => 0, 0, fun _ => .fresh, 0, fun _ => ⟨none, none⟩, none⟩

/-! ## Calls and commands -/

/-- `ensure_worker_attached`, when the row of `vm_state` names the shared state `found` of a live process. -/
def Host.attach (s : Host) (b : Nat) (found : Option Nat) : Host :=
  match (s.clients b).vm_dsm, found with
  | none, some h =>
    if h < s.next_dsm then { s with clients := setAt s.clients b { s.clients b with vm_dsm := some h } } else s
  | _, _ => s

def Host.create (s : Host) (b : Nat) : Host :=
  { s with
    shared := setAt s.shared s.next_dsm .fresh
    next_dsm := s.next_dsm + 1
    clients := setAt s.clients b { s.clients b with vm_dsm := some s.next_dsm } }

/-- `launch_native_worker`. -/
def Host.launch (s : Host) (b : Nat) (found : Option Nat) : Host :=
  let s := s.attach b found
  match (s.clients b).vm_dsm with
  | some h => if (s.shared h).worker_ready then s else s.create b
  | none => s.create b

/-- The copy at the end of a command. -/
def Shared.sync (sh : Shared) : Shared :=
  match sh.vm_cpu with
  | some m => { sh with cpu := some { m with cpu := m.cpu.image } }
  | none => sh

/-- BOOT up to the export of the new segment. -/
def Host.bootBegin (s : Host) (h : Nat) : Host :=
  let sh := s.shared h
  if sh.worker_ready ∧ sh.booting = none then
    { s with
      segments := setAt s.segments s.next_seg fun _ => 0
      next_seg := s.next_seg + 1
      shared := setAt s.shared h { sh with ram_dsm_handle := some s.next_seg, booting := some s.next_seg } }
  else s

/-- The rest of BOOT: a machine in the new segment, or the return for want of assets. -/
def Host.bootEnd (s : Host) (h : Nat) (made : Option (Cpu × Mem)) : Host :=
  let sh := s.shared h
  match sh.booting, made with
  | some seg, some (c, ram) =>
    { s with
      segments := setAt s.segments seg ram
      shared := setAt s.shared h
        (Shared.sync { sh with vm_cpu := some ⟨seg, c⟩, booting := none, booted := some seg }) }
  | some _, none => { s with shared := setAt s.shared h (Shared.sync { sh with booting := none }) }
  | none, _ => s

/-- Any other command: the worker's machine and the exported RAM as it leaves them. -/
def Host.command (s : Host) (h : Nat) (c : Cpu) (ram : Mem) : Host :=
  let sh := s.shared h
  match sh.vm_cpu, sh.ram_dsm_handle with
  | some m, some seg =>
    if sh.worker_ready ∧ sh.booting = none then
      { s with
        segments := setAt s.segments seg ram
        shared := setAt s.shared h (Shared.sync { sh with vm_cpu := some { m with cpu := c } }) }
    else s
  | _, _ => s

/-- `vm_halt`: the worker ends, and the backend forgets it but not its mapping of RAM. -/
def Host.halt (s : Host) (b : Nat) : Host :=
  match (s.clients b).vm_dsm with
  | none => s
  | some h =>
    let clients := setAt s.clients b { s.clients b with vm_dsm := none }
    let sh := s.shared h
    if !sh.worker_ready then { s with clients := clients }
    else if sh.booting = none then
      { s with clients := clients, shared := setAt s.shared h (Shared.sync { sh with worker_ready := false }) }
    else s

/-- The shared state and the segment with which an inspection goes on after `ensure_frontend_ram`; `none` is an error. -/
def Host.mapped (s : Host) (b : Nat) : Option (Nat × Nat) :=
  match (s.clients b).vm_dsm with
  | none => none
  | some h =>
    if !(s.shared h).worker_ready then none
    else (s.shared h).ram_dsm_handle.map fun seg => (h, (s.clients b).frontend_ram.getD seg)

/-- A call of `vm_state_save`, `vm_state`, `vm_peek`, `vm_find` or another that reads RAM. -/
def Host.inspect (s : Host) (b : Nat) (found : Option Nat) : Host :=
  let s := s.attach b found
  match s.mapped b with
  | none => { s with seen := none }
  | some (h, seg) =>
    { s with
      clients := setAt s.clients b { s.clients b with frontend_ram := some seg }
      seen := some ⟨seg, s.segments seg, (s.shared h).cpu⟩ }

inductive HostEvent where
  | launch (b : Nat) (found : Option Nat)
  | bootBegin (h : Nat)
  | bootEnd (h : Nat) (made : Option (Cpu × Mem))
  | command (h : Nat) (c : Cpu) (ram : Mem)
  | halt (b : Nat)
  | inspect (b : Nat) (found : Option Nat)

def Host.step (s : Host) : HostEvent → Host
  | .launch b found => { s.launch b found with seen := none }
  | .bootBegin h => { s.bootBegin h with seen := none }
  | .bootEnd h made => { s.bootEnd h made with seen := none }
  | .command h c ram => { s.command h c ram with seen := none }
  | .halt b => { s.halt b with seen := none }
  | .inspect b found => s.inspect b found

/-! ## Coherence -/

/-- The RAM that was looked at is that of the instance whose CPU state stood beside it. -/
def Coherent (s : Host) : Prop := ∀ i, s.seen = some i → ∃ m, i.cpu = some m ∧ m.seg = i.seg

/-- An inspection whose segment is not the one of the last BOOT that succeeded: the backend mapped it for an earlier
instance, or maps the segment of a BOOT that is under way or has failed. -/
def Mixes (s : Host) : HostEvent → Prop
  | .inspect b found => ∃ h seg, (s.attach b found).mapped b = some (h, seg) ∧
      ((s.attach b found).shared h).booted ≠ some seg
  | _ => False

/-- The worker's machine and its copy are those of the last BOOT that succeeded. -/
structure Shared.Current (sh : Shared) : Prop where
  vm_cpu : sh.vm_cpu.map Machine.seg = sh.booted
  cpu : sh.cpu.map Machine.seg = sh.booted

def HostOk (s : Host) : Prop := ∀ h, (s.shared h).Current

theorem Shared.Current.fresh : Shared.fresh.Current := ⟨rfl, rfl⟩

/-- A copy is of the instance that the machine is of. -/
theorem Shared.Current.sync {sh : Shared} (hvm : sh.vm_cpu.map Machine.seg = sh.booted)
    (hcpu : sh.vm_cpu = none → sh.cpu.map Machine.seg = sh.booted) : sh.sync.Current := by
  unfold Shared.sync
  cases h : sh.vm_cpu with
  | none => exact ⟨hvm, hcpu h⟩
  | some m =>
    rw [h] at hvm
    exact ⟨hvm, hvm⟩

theorem HostOk.set {s s' : Host} (hs : HostOk s) {h : Nat} {sh : Shared} (hsh : sh.Current)
    (hs' : s'.shared = setAt s.shared h sh) : HostOk s' := by
  intro k
  rw [hs']
  unfold setAt
  split
  · exact hsh
  · exact hs k

theorem attach_shared (s : Host) (b : Nat) (found : Option Nat) : (s.attach b found).shared = s.shared := by
  unfold Host.attach
  split
  · split <;> rfl
  · rfl

theorem HostOk.launch {s : Host} (hs : HostOk s) (b : Nat) (found : Option Nat) : HostOk (s.launch b found) := by
  have hattach : HostOk (s.attach b found) := by
    intro h
    rw [attach_shared]
    exact hs h
  unfold Host.launch
  dsimp only
  split
  · split
    · exact hattach
    · exact hattach.set .fresh rfl
  · exact hattach.set .fresh rfl

theorem HostOk.bootEnd {s : Host} (hs : HostOk s) (h : Nat) (made : Option (Cpu × Mem)) : HostOk (s.bootEnd h made) := by
  unfold Host.bootEnd
  dsimp only
  split
  next seg c ram _ =>
    refine hs.set (h := h) (Shared.Current.sync ?_ fun hnone => ?_) rfl
    · rfl
    · cases hnone
  next =>
    refine hs.set (h := h) (Shared.Current.sync ?_ fun _ => ?_) rfl
    · exact (hs h).vm_cpu
    · exact (hs h).cpu
  next => exact hs

theorem HostOk.command {s : Host} (hs : HostOk s) (h : Nat) (c : Cpu) (ram : Mem) : HostOk (s.command h c ram) := by
  unfold Host.command
  dsimp only
  split
  next m seg hm _ =>
    split
    · have hvm := (hs h).vm_cpu
      rw [hm] at hvm
      refine hs.set (h := h) (Shared.Current.sync ?_ fun hnone => ?_) rfl
      · exact hvm
      · cases hnone
    · exact hs
  next => exact hs

theorem HostOk.halt {s : Host} (hs : HostOk s) (b : Nat) : HostOk (s.halt b) := by
  unfold Host.halt
  split
  next => exact hs
  next h _ =>
    dsimp only
    split
    · exact hs
    · split
      · refine hs.set (h := h) (Shared.Current.sync ?_ fun _ => ?_) rfl
        · exact (hs h).vm_cpu
        · exact (hs h).cpu
      · exact hs

theorem HostOk.attach {s : Host} (hs : HostOk s) (b : Nat) (found : Option Nat) : HostOk (s.attach b found) := by
  intro h
  rw [attach_shared]
  exact hs h

theorem HostOk.step {s : Host} (e : HostEvent) (hs : HostOk s) : HostOk (s.step e) := by
  cases e with
  | launch b found => exact hs.launch b found
  | bootBegin h =>
    have hbegin : HostOk (s.bootBegin h) := by
      unfold Host.bootBegin
      dsimp only
      split
      · refine hs.set (h := h) ⟨?_, ?_⟩ rfl
        · exact (hs h).vm_cpu
        · exact (hs h).cpu
      · exact hs
    exact hbegin
  | bootEnd h made => exact hs.bootEnd h made
  | command h c ram => exact hs.command h c ram
  | halt b => exact hs.halt b
  | inspect b found =>
    have hattach := hs.attach b found
    unfold Host.step Host.inspect
    dsimp only
    split <;> exact hattach

/-- **One inspection is coherent exactly when its segment is that of the last BOOT that succeeded.** -/
theorem inspect_coherent {s : Host} (hs : HostOk s) (b : Nat) (found : Option Nat) :
    Coherent (s.step (.inspect b found)) ↔ ¬ Mixes s (.inspect b found) := by
  have hattach := hs.attach b found
  unfold Host.step Host.inspect Mixes
  dsimp only
  generalize s.attach b found = t at hattach
  cases hm : t.mapped b with
  | none =>
    constructor
    · rintro - ⟨h, seg, hsome, -⟩
      cases hsome
    · intro _ i hi
      cases hi
  | some p =>
    obtain ⟨h, seg⟩ := p
    have hcpu := (hattach h).cpu
    constructor
    · rintro hcoh ⟨h', seg', hsome, hne⟩
      cases hsome
      obtain ⟨m, hm, hseg⟩ := hcoh _ rfl
      have hsome : (t.shared h).cpu = some m := hm
      rw [hsome] at hcpu
      exact hne (hcpu.symm.trans (congrArg some hseg))
    · intro hmix i hi
      cases hi
      have hbooted : (t.shared h).booted = some seg := by
        by_contra hne
        exact hmix ⟨h, seg, rfl, hne⟩
      rw [hbooted, Option.map_eq_some_iff] at hcpu
      exact hcpu

/-- **What a backend looks at is one instance exactly when no inspection goes by a segment other than that of the last
BOOT that succeeded.** -/
theorem coherent_iff (evs : List HostEvent) :
    Runs.Along Host.step Coherent .start evs ↔ Runs.Avoids Host.step Mixes .start evs := by
  refine Runs.along_iff_avoids (I := HostOk) (fun s e hs => hs.step e) (fun s e hs _ => ?_) (fun _ => .fresh)
    (fun i hi => nomatch hi) evs
  cases e with
  | inspect b found => exact inspect_coherent hs b found
  | _ => exact ⟨fun _ => id, fun _ i hi => (nomatch hi)⟩

/-! ## A second BOOT -/

def resetMachine : Cpu × Mem := (rv64Init (fun _ => 0) vmRamSize, fun _ => 0)

/-- A backend boots, looks, boots again and looks again. -/
def bootTwice : List HostEvent :=
  [.launch 0 none, .bootBegin 0, .bootEnd 0 (some resetMachine), .inspect 0 none, .bootBegin 0,
    .bootEnd 0 (some resetMachine), .inspect 0 none]

/-- It still sees the RAM of the first machine, beside the CPU state of the second. -/
theorem not_coherent_bootTwice : ¬ Runs.Along Host.step Coherent .start bootTwice := by
  intro h
  obtain ⟨m, hm, hseg⟩ := h bootTwice List.prefix_rfl _ rfl
  have hcpu : some ⟨1, resetMachine.1.image⟩ = some m := hm
  obtain rfl := Option.some.inj hcpu
  cases hseg

end PgLinux
