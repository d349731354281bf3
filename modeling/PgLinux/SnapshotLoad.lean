import PgLinux.Lib.Prog
import PgLinux.ConsoleSearch
/-!
# SnapshotLoad — `vm_load` (`rv64_pgext.c`)

A snapshot is a header, the bytes of `struct rv64_cpu`, guest RAM and the console.  Once the header is accepted each
part is read over the machine there is, and a part that is cut short is found out after that.
-/
namespace PgLinux

/-! ## Memory of the process -/

/-- A buffer by index; a negative index is memory before it. -/
abbrev Buffer := Int → U8

/-- The bytes of `l` from index `o` on. -/
def poke (b : Buffer) (o : Nat) (l : List U8) : Buffer := fun i => if i < o then b i else (l[(i - o).toNat]?).getD (b i)

/-- A little-endian number. -/
def littleEndian (l : List U8) : Nat := l.foldr (fun b n => b.toNat + 256 * n) 0

/-- The field of `n` bytes at `o`. -/
def fieldOf (b : Buffer) (o n : Nat) : Nat := littleEndian ((List.range n).map fun k => b (o + k : Nat))

/-- The size of `struct rv64_cpu` and the offsets of the fields used here, as the compiler lays them out. -/
structure CpuLayout where
  size : Nat
  pc : Nat
  priv : Nat
  instret : Nat
  tlb : Nat
  tlb_size : Nat
  tx_callback : Nat
  tx_opaque : Nat
  ram_size : Nat
  jit : Nat
  debug_halt : Nat

/-- A static pointer of the process: to memory from `palloc`, or to a DSM mapping, or to memory that is gone (a buffer
of a memory context that was reset, or one that was freed). -/
inductive ProcPtr where
  | null
  | palloced (bytes : Buffer)
  | mapped (bytes : Buffer)
  | dangling

/-- The bytes behind the pointer; without them, using it is undefined. -/
def ProcPtr.bytes? : ProcPtr → Option Buffer
  | .palloced b => some b
  | .mapped b => some b
  | _ => none

/-- The pointer, once the bytes behind it are changed by `g`. -/
def ProcPtr.edit (g : Buffer → Buffer) : ProcPtr → ProcPtr
  | .palloced b => .palloced (g b)
  | .mapped b => .mapped (g b)
  | p => p

@[simp] theorem ProcPtr.bytes?_edit (g : Buffer → Buffer) (p : ProcPtr) : (p.edit g).bytes? = p.bytes?.map g := by
  cases p <;> rfl

/-- The part of `SharedVMState` that is used here. -/
structure SharedConsole where
  worker_ready : Bool
  console_pos : Int
  console_buf : Buffer

/-- The statics of the process.  `shared` is as `ensure_worker_attached` leaves it, `none` where it is null.  `vm_cpu` is
null in a frontend that has booted nothing itself, and dangles once the statement that loaded into it is over: `vm_load`
allocates in the context of the call. -/
structure LoadState where
  vm_cpu : ProcPtr
  vm_ram : ProcPtr
  shared : Option SharedConsole

inductive LoadStop where
  | elog (msg : String)
  | noMemory
  | undefined
deriving DecidableEq

abbrev LoadM := EStateM LoadStop LoadState

/-! ## The header -/

def snapshotMagic : Nat := 0x485350414E535652
def snapshotVersion : Nat := 1

/-- `sizeof(struct vm_snapshot_header)`. -/
def headerSize : Nat := 120

section Header

variable (f : List U8)

/-- The field of `n` bytes at `o` in the file. -/
def headerField (o n : Nat) : Nat := littleEndian ((f.drop o).take n)

def hdrMagic : Nat := headerField f 0 8
def hdrVersion : Nat := headerField f 8 4
def hdrStructSize : Nat := headerField f 16 8
def hdrRamSize : Nat := headerField f 24 8
def hdrConsoleSize : Nat := headerField f 32 4

/-- The error of a header that is not accepted. -/
def headerError (lay : CpuLayout) : Option String :=
  if f.length < headerSize then some "vm_load: cannot read header"
  else if hdrMagic f ≠ snapshotMagic then some "vm_load: bad magic (not a VM snapshot)"
  else if hdrVersion f ≠ snapshotVersion then
    some ("vm_load: version mismatch (" ++ toString (hdrVersion f) ++ " vs " ++ toString snapshotVersion ++ ")")
  else if hdrStructSize f ≠ lay.size then
    some ("vm_load: struct size mismatch (" ++ toString (hdrStructSize f) ++ " vs " ++ toString lay.size ++
      ") — rebuild needed")
  else none

end Header

/-! ## Loading -/

section Load

variable (lay : CpuLayout)

/-- `vm_shared_state && vm_shared_state->worker_ready`. -/
def LoadState.ready (s : LoadState) : Bool := s.shared.any fun sh => sh.worker_ready

/-- `vm_cpu` is allocated anew where no worker is ready; `alloc` is whether `palloc0` of a size succeeds. -/
def allocateCpu (alloc : Nat → Bool) : LoadM Unit := fun s =>
  if s.ready then .ok () s
  else if alloc lay.size then .ok () { s with vm_cpu := .palloced fun _ => 0 }
  else .error .noMemory s

/-- `vm_ram` is allocated anew where it is null or not of the size of the header. -/
def allocateRam (alloc : Nat → Bool) (ramSize : Nat) : LoadM Unit := fun s =>
  match s.vm_ram with
  | .null =>
    if alloc ramSize then .ok () { s with vm_ram := .palloced fun _ => 0 } else .error .noMemory s
  | p =>
    match s.vm_cpu.bytes? with
    | none => .error .undefined s
    | some c =>
      if fieldOf c lay.ram_size 8 = ramSize then .ok () s
      else
        match p with
        | .palloced _ =>
          if alloc ramSize then .ok () { s with vm_ram := .palloced fun _ => 0 }
          else .error .noMemory { s with vm_ram := .dangling }
        | _ => .error .undefined s -- `pfree` of a mapping, or of memory that is gone

/-- `console_pos = 0`, and the CPU from the rest of the file. -/
def readCpu (rest : List U8) : LoadM Unit := fun s =>
  match s.shared, s.vm_cpu.bytes? with
  | some sh, some _ =>
    let s := { s with
      shared := some { sh with console_pos := 0 }
      vm_cpu := s.vm_cpu.edit fun c => poke c 0 (rest.take lay.size) }
    if rest.length < lay.size then .error (.elog "vm_load: cannot read cpu struct") s else .ok () s
  | _, _ => .error .undefined s

def readRam (ramSize : Nat) (rest : List U8) : LoadM Unit := fun s =>
  match s.vm_ram.bytes? with
  | some _ =>
    let s := { s with vm_ram := s.vm_ram.edit fun m => poke m 0 (rest.take ramSize) }
    if rest.length < ramSize then .error (.elog "vm_load: cannot read RAM") s else .ok () s
  | none => .error .undefined s

/-- `console_pos` is an `int`, and is clamped from above only. -/
def clampConsole (consoleSize : Nat) : Int := min (BitVec.ofNat 32 consoleSize).toInt (consoleBufSize - 1 : Nat)

def readConsole (consoleSize : Nat) (rest : List U8) : LoadM Unit := fun s =>
  match s.shared with
  | some sh =>
    let pos := clampConsole consoleSize
    let buf := poke sh.console_buf 0 (rest.take pos.toNat)
    if rest.length < pos.toNat then
      .error (.elog "vm_load: cannot read console") { s with shared := some ⟨sh.worker_ready, pos, buf⟩ }
    else .ok () { s with shared := some ⟨sh.worker_ready, pos, setAt buf pos 0⟩ }
  | none => .error .undefined s

/-- What is stored over the CPU that was read: `jit`, `uart.tx_callback` and `uart.tx_opaque`, the TLB and `debug_halt`. -/
def hostFields (jit pgUartTx : List U8) : List (Nat × List U8) :=
  [(lay.jit, jit), (lay.tx_callback, pgUartTx), (lay.tx_opaque, List.replicate 8 0),
    (lay.tlb, List.replicate lay.tlb_size 0), (lay.debug_halt, List.replicate 4 0)]

def fixUp (jit pgUartTx : List U8) (c : Buffer) : Buffer :=
  (hostFields lay jit pgUartTx).foldl (fun c p => poke c p.1 p.2) c

/-- The text returned, in a buffer of 256 bytes. -/
def loadedText (path : String) (c : Buffer) : String :=
  let text := "loaded: " ++ path ++ " (instret=" ++ toString (fieldOf c lay.instret 8) ++ ", pc=0x" ++
    String.ofList (Nat.toDigits 16 (fieldOf c lay.pc 8)) ++ ", priv=" ++ toString (fieldOf c lay.priv 1) ++ ")"
  String.ofList (text.toList.take 255)

def finishLoad (jit pgUartTx : List U8) (path : String) : LoadM String := fun s =>
  match s.vm_cpu.bytes? with
  | some c =>
    .ok (loadedText lay path (fixUp lay jit pgUartTx c)) { s with vm_cpu := s.vm_cpu.edit (fixUp lay jit pgUartTx) }
  | none => .error .undefined s

/-- The parts of the file, read into the buffers there are, and the fix-up of the CPU. -/
def readSections (jit pgUartTx : List U8) (path : String) (f : List U8) : LoadM String := do
  readCpu lay (f.drop headerSize)
  readRam (hdrRamSize f) (f.drop (headerSize + lay.size))
  readConsole (hdrConsoleSize f) (f.drop (headerSize + lay.size + hdrRamSize f))
  finishLoad lay jit pgUartTx path

/-- What follows once the header is accepted. -/
def loadSections (alloc : Nat → Bool) (jit pgUartTx : List U8) (path : String) (f : List U8) : LoadM String := do
  allocateCpu lay alloc
  allocateRam lay alloc (hdrRamSize f)
  readSections lay jit pgUartTx path f

/-- `vm_load`; `jit` and `pgUartTx` are the pointers stored, and a file that cannot be opened is `none`. -/
def vmLoad (alloc : Nat → Bool) (jit pgUartTx : List U8) (path : String) (file : Option (List U8)) : LoadM String :=
  match file with
  | none => throw (.elog ("vm_load: cannot open " ++ path))
  | some f =>
    match headerError f lay with
    | some msg => throw (.elog msg)
    | none => loadSections lay alloc jit pgUartTx path f

/-! ## The specification -/

/-- Byte `i` of the CPU is stored over after it is read. -/
def IsHostByte (jit pgUartTx : List U8) (i : Nat) : Prop :=
  ∃ p ∈ hostFields lay jit pgUartTx, p.1 ≤ i ∧ i < p.1 + p.2.length

/-- The CPU, the RAM and the console of the process are those of the file; the CPU but for what belongs to this host. -/
structure Loaded (jit pgUartTx : List U8) (f : List U8) (s : LoadState) : Prop where
  cpu : ∃ c, s.vm_cpu.bytes? = some c ∧ ∀ i, i < lay.size → ¬ IsHostByte lay jit pgUartTx i → f[headerSize + i]? = some (c i)
  ram : ∃ m, s.vm_ram.bytes? = some m ∧ ∀ i, i < hdrRamSize f → f[headerSize + lay.size + i]? = some (m i)
  console : ∃ sh, s.shared = some sh ∧ sh.console_pos = hdrConsoleSize f ∧ 0 ≤ sh.console_pos ∧
    sh.console_pos < consoleBufSize ∧
    ∀ i, i < hdrConsoleSize f → f[headerSize + lay.size + hdrRamSize f + i]? = some (sh.console_buf i)

/-- A load that began in `s` reports an error and has changed nothing, or leaves what the file holds. -/
inductive Transactional (jit pgUartTx : List U8) (f : List U8) (s : LoadState) :
    EStateM.Result LoadStop LoadState String → Prop where
  | loaded {text : String} {s' : LoadState} (h : Loaded lay jit pgUartTx f s') :
    Transactional jit pgUartTx f s (.ok text s')
  | refused {e : LoadStop} (h : e ≠ .undefined) : Transactional jit pgUartTx f s (.error e s)

/-- What a pointer points to, whatever is written there. -/
inductive PtrKind where
  | null
  | palloced
  | mapped
  | dangling
deriving DecidableEq

def ProcPtr.kind : ProcPtr → PtrKind
  | .null => .null
  | .palloced _ => .palloced
  | .mapped _ => .mapped
  | .dangling => .dangling

/-- There are bytes behind the pointer. -/
def PtrKind.IsLive (k : PtrKind) : Prop := k = .palloced ∨ k = .mapped

/-- What the process holds before a load, but for the contents: where its pointers lead, whether a worker is ready
(`none` without a shared segment), and the `ram_size` of its CPU (0 without one). -/
structure LoadShape where
  vm_cpu : PtrKind
  vm_ram : PtrKind
  worker_ready : Option Bool
  ram_size : Nat

def LoadState.shape (s : LoadState) : LoadShape where
  vm_cpu := s.vm_cpu.kind
  vm_ram := s.vm_ram.kind
  worker_ready := s.shared.map fun sh => sh.worker_ready
  ram_size := (s.vm_cpu.bytes?.map fun c => fieldOf c lay.ram_size 8).getD 0

section Shape

variable (alloc : Nat → Bool) (p : LoadShape)

/-- The `ram_size` the loader compares with the header's: 0 in a CPU allocated anew. -/
def LoadShape.comparedSize : Nat := if p.worker_ready = some true then p.ram_size else 0

/-- `palloc0` fails before anything is overwritten: for the CPU where no worker is ready, for the RAM where one is. -/
def OutOfMemory (f : List U8) : Prop :=
  (p.worker_ready ≠ some true ∧ alloc lay.size = false) ∨
    (p.worker_ready = some true ∧ p.vm_ram = .null ∧ alloc (hdrRamSize f) = false)

/-- A RAM of `n` bytes is there or to be had, where the CPU says `size`. -/
def RamFits (n size : Nat) (k : PtrKind) : Prop :=
  k ≠ .dangling ∧ (k = .null → alloc n = true) ∧ (k ≠ .null → size ≠ n → k = .palloced ∧ alloc n = true)

/-- The loader gets a CPU and a RAM of `n` bytes to read into, and a console. -/
structure Loadable (n : Nat) : Prop where
  attached : p.worker_ready ≠ none
  cpu : p.worker_ready = some true → p.vm_cpu.IsLive
  newCpu : p.worker_ready ≠ some true → alloc lay.size = true
  ram : RamFits alloc n p.comparedSize p.vm_ram

end Shape

/-- The file has all it says it has, and its console fits. -/
structure LoadsWhole (f : List U8) : Prop where
  whole : headerSize + lay.size + hdrRamSize f + hdrConsoleSize f ≤ f.length
  console : hdrConsoleSize f < consoleBufSize

end Load

theorem Transactional.final_of_failure {lay : CpuLayout} {jit pgUartTx f : List U8} {s : LoadState}
    {r : EStateM.Result LoadStop LoadState String} {e : LoadStop} (h : Transactional lay jit pgUartTx f s r)
    (he : Prog.failure r = some e) : Prog.final r = s := by
  cases h with
  | loaded => cases he
  | refused => rfl

theorem Transactional.unchanged {lay : CpuLayout} {jit pgUartTx f : List U8} {s s' : LoadState} {e : LoadStop}
    (h : Transactional lay jit pgUartTx f s (.error e s')) : s' = s := h.final_of_failure rfl

theorem Transactional.isLoaded {lay : CpuLayout} {jit pgUartTx f : List U8} {s s' : LoadState} {text : String}
    (h : Transactional lay jit pgUartTx f s (.ok text s')) : Loaded lay jit pgUartTx f s' := by
  cases h
  assumption

theorem Transactional.not_undefined {lay : CpuLayout} {jit pgUartTx f : List U8} {s s' : LoadState} :
    ¬ Transactional lay jit pgUartTx f s (.error .undefined s') := by
  intro h
  cases h with
  | refused h => exact h rfl

/-- **A first part that does not stop as the load began** is passed. -/
theorem Transactional.of_bind {α : Type} {lay : CpuLayout} {jit pgUartTx f : List U8} {s₀ s : LoadState} {m : LoadM α}
    {k : α → LoadM String} (ht : Transactional lay jit pgUartTx f s₀ ((m >>= k) s))
    (hm : ∀ e s', m s = .error e s' → e = .undefined ∨ s' ≠ s₀) :
    ∃ a s', m s = .ok a s' ∧ Transactional lay jit pgUartTx f s₀ (k a s') := by
  cases hrun : m s with
  | ok a s' =>
    rw [Prog.bind_of_ok hrun] at ht
    exact ⟨a, s', rfl, ht⟩
  | error e s' =>
    rw [Prog.bind_of_error hrun] at ht
    rcases hm e s' hrun with rfl | hne
    · exact absurd ht Transactional.not_undefined
    · exact absurd ht.unchanged hne

/-! ## Buffers -/

theorem poke_inside (b : Buffer) (l : List U8) {i : Nat} (hi : i < l.length) : l[i]? = some (poke b 0 l i) := by
  have hneg : ¬ ((i : Int) < (0 : Nat)) := by omega
  have hat : ((i : Int) - (0 : Nat)).toNat = i := by omega
  unfold poke
  rw [if_neg hneg, hat, List.getElem?_eq_getElem hi]
  rfl

theorem poke_outside (b : Buffer) (o : Nat) (l : List U8) {i : Nat} (hi : ¬ (o ≤ i ∧ i < o + l.length)) :
    poke b o l i = b i := by
  unfold poke
  split
  · rfl
  next hge =>
    have hlen : l.length ≤ ((i : Int) - o).toNat := by omega
    rw [List.getElem?_eq_none hlen]
    rfl

/-- **The part that is read stands at the front of the buffer.** -/
theorem poke_take (b : Buffer) {f : List U8} {o n i : Nat} (hi : i < n) (hlen : o + n ≤ f.length) :
    f[o + i]? = some (poke b 0 ((f.drop o).take n) i) := by
  have hin : i < ((f.drop o).take n).length := by
    rw [List.length_take, List.length_drop]
    omega
  rw [← poke_inside b _ hin, List.getElem?_take_of_lt hi, List.getElem?_drop]

theorem foldl_poke_outside {i : Nat} : ∀ (l : List (Nat × List U8)) (c : Buffer),
    (¬ ∃ p ∈ l, p.1 ≤ i ∧ i < p.1 + p.2.length) → l.foldl (fun c p => poke c p.1 p.2) c i = c i
  | [], _, _ => rfl
  | p :: l, c, h => by
    rw [List.foldl_cons, foldl_poke_outside l _ fun ⟨q, hq, hin⟩ => h ⟨q, List.mem_cons_of_mem _ hq, hin⟩]
    exact poke_outside c p.1 p.2 fun hin => h ⟨p, List.mem_cons_self, hin⟩

theorem clampConsole_of_lt {n : Nat} (h : n < consoleBufSize) : clampConsole n = n := by
  have hcap : consoleBufSize = 2 ^ 20 := by decide
  have hint : (BitVec.ofNat 32 n).toInt = n := by
    rw [BitVec.toInt_eq_toNat_of_lt (by rw [BitVec.toNat_ofNat]; omega), BitVec.toNat_ofNat]
    omega
  unfold clampConsole
  rw [hint]
  omega

/-! ## Room for the machine -/

@[simp] theorem ProcPtr.kind_edit (g : Buffer → Buffer) (p : ProcPtr) : (p.edit g).kind = p.kind := by cases p <;> rfl

theorem ProcPtr.isLive_iff (p : ProcPtr) : p.kind.IsLive ↔ ∃ b, p.bytes? = some b := by
  cases p <;> simp [ProcPtr.kind, ProcPtr.bytes?, PtrKind.IsLive]

section Room

variable {lay : CpuLayout} {alloc : Nat → Bool} {s s' : LoadState} {n : Nat}

theorem ready_iff : s.ready = true ↔ (s.shape lay).worker_ready = some true := by
  unfold LoadState.ready LoadState.shape
  cases s.shared <;> simp

theorem fieldOf_zero (o : Nat) : fieldOf (fun _ => 0) o 8 = 0 := by
  show littleEndian (List.replicate 8 0) = 0
  decide

theorem allocateCpu_eq_ok : allocateCpu lay alloc s = .ok () s' ↔
    s.ready = true ∧ s' = s ∨ s.ready = false ∧ alloc lay.size = true ∧ s' = { s with vm_cpu := .palloced fun _ => 0 } := by
  unfold allocateCpu
  cases s.ready <;> cases alloc lay.size <;> simp [eq_comm]

/-- **The CPU that is read into, and the size that is compared.** -/
theorem allocateCpu_bytes (h : allocateCpu lay alloc s = .ok () s') :
    s'.shared = s.shared ∧ s'.vm_ram = s.vm_ram ∧
      (s.shape lay).comparedSize = (s'.vm_cpu.bytes?.map fun c => fieldOf c lay.ram_size 8).getD 0 ∧
      ((∃ c, s'.vm_cpu.bytes? = some c) ↔ ((s.shape lay).worker_ready = some true → (s.shape lay).vm_cpu.IsLive)) := by
  unfold LoadShape.comparedSize
  rcases allocateCpu_eq_ok.1 h with ⟨hready, rfl⟩ | ⟨hready, -, rfl⟩
  · have hready : (s'.shape lay).worker_ready = some true := ready_iff.1 hready
    rw [if_pos hready]
    exact ⟨rfl, rfl, rfl, by rw [← s'.vm_cpu.isLive_iff]; exact ⟨fun hl _ => hl, fun hl => hl hready⟩⟩
  · have hnot : ¬ (s.shape lay).worker_ready = some true := by
      rw [← ready_iff, hready]
      exact Bool.false_ne_true
    rw [if_neg hnot]
    exact ⟨rfl, rfl, (fieldOf_zero lay.ram_size).symm, iff_of_true ⟨_, rfl⟩ fun hr => absurd hr hnot⟩

theorem allocateRam_null (h : s.vm_ram = .null) : allocateRam lay alloc n s =
    if alloc n then .ok () { s with vm_ram := .palloced fun _ => 0 } else .error .noMemory s := by
  unfold allocateRam
  rw [h]

theorem allocateRam_same {c : Buffer} (hr : s.vm_ram ≠ .null) (hc : s.vm_cpu.bytes? = some c)
    (hsize : fieldOf c lay.ram_size 8 = n) : allocateRam lay alloc n s = .ok () s := by
  unfold allocateRam
  cases hram : s.vm_ram with
  | null => exact absurd hram hr
  | palloced | mapped | dangling =>
    simp only [hc]
    rw [if_pos hsize]

theorem allocateRam_other {c : Buffer} (hr : s.vm_ram ≠ .null) (hc : s.vm_cpu.bytes? = some c)
    (hsize : fieldOf c lay.ram_size 8 ≠ n) : allocateRam lay alloc n s =
      match s.vm_ram with
      | .palloced _ =>
        if alloc n then .ok () { s with vm_ram := .palloced fun _ => 0 }
        else .error .noMemory { s with vm_ram := .dangling }
      | _ => .error .undefined s := by
  unfold allocateRam
  cases hram : s.vm_ram with
  | null => exact absurd hram hr
  | palloced | mapped | dangling =>
    simp only [hc]
    rw [if_neg hsize]

/-- **The RAM that is read into is there**, or the load is refused or undefined. -/
theorem allocateRam_iff {c : Buffer} (hc : s.vm_cpu.bytes? = some c) :
    (∃ s', allocateRam lay alloc n s = .ok () s' ∧ s'.vm_cpu = s.vm_cpu ∧ s'.shared = s.shared ∧
      ∃ m, s'.vm_ram.bytes? = some m) ↔ RamFits alloc n (fieldOf c lay.ram_size 8) s.vm_ram.kind := by
  obtain ⟨vm_cpu, vm_ram, shared⟩ := s
  by_cases hnull : vm_ram = .null
  · subst hnull
    rw [allocateRam_null rfl]
    cases halloc : alloc n <;> simp [RamFits, ProcPtr.kind, ProcPtr.bytes?, halloc]
  · by_cases hsize : fieldOf c lay.ram_size 8 = n
    · rw [allocateRam_same hnull hc hsize]
      cases vm_ram <;> simp [RamFits, ProcPtr.kind, ProcPtr.bytes?, hsize] at hnull ⊢
    · rw [allocateRam_other hnull hc hsize]
      cases vm_ram <;> cases halloc : alloc n <;> simp [RamFits, ProcPtr.kind, ProcPtr.bytes?, halloc, hsize] at hnull ⊢

/-- There is what the parts of the file are read into. -/
structure LoadState.HasBuffers (s : LoadState) : Prop where
  cpu : ∃ c, s.vm_cpu.bytes? = some c
  ram : ∃ m, s.vm_ram.bytes? = some m
  shared : ∃ sh, s.shared = some sh

theorem newCpu_of_ok (h : allocateCpu lay alloc s = .ok () s') (hr : (s.shape lay).worker_ready ≠ some true) :
    alloc lay.size = true := by
  rcases allocateCpu_eq_ok.1 h with ⟨hready, -⟩ | ⟨-, halloc, -⟩
  · exact absurd (ready_iff.1 hready) hr
  · exact halloc

theorem exists_allocateCpu (h : (s.shape lay).worker_ready ≠ some true → alloc lay.size = true) :
    ∃ s', allocateCpu lay alloc s = .ok () s' := by
  cases hready : s.ready with
  | true => exact ⟨s, allocateCpu_eq_ok.2 (.inl ⟨hready, rfl⟩)⟩
  | false =>
    have hnot : (s.shape lay).worker_ready ≠ some true := by
      rw [ne_eq, ← ready_iff, hready]
      exact Bool.false_ne_true
    exact ⟨_, allocateCpu_eq_ok.2 (.inr ⟨hready, h hnot, rfl⟩)⟩

theorem attached_iff : (s.shape lay).worker_ready ≠ none ↔ ∃ sh, s.shared = some sh := by
  unfold LoadState.shape
  cases s.shared <;> simp

/-- **Where there is room the loader has its buffers.** -/
theorem exists_buffers (h : Loadable lay alloc (s.shape lay) n) :
    ∃ s₁ s₂, allocateCpu lay alloc s = .ok () s₁ ∧ allocateRam lay alloc n s₁ = .ok () s₂ ∧ s₂.HasBuffers := by
  obtain ⟨s₁, h₁⟩ := exists_allocateCpu h.newCpu
  obtain ⟨hshared, hram, hsize, hlive⟩ := allocateCpu_bytes h₁
  obtain ⟨c, hc⟩ := hlive.2 h.cpu
  have hfits : RamFits alloc n (s.shape lay).comparedSize s.vm_ram.kind := h.ram
  rw [hsize, hc, ← hram] at hfits
  obtain ⟨s₂, h₂, hcpu₂, hshared₂, hm⟩ := (allocateRam_iff hc).2 hfits
  exact ⟨s₁, s₂, h₁, h₂, ⟨c, hcpu₂ ▸ hc⟩, hm, by rw [hshared₂, hshared]; exact attached_iff.1 h.attached⟩

/-- An allocation of RAM keeps the CPU and the console. -/
theorem allocateRam_frame (h : allocateRam lay alloc n s = .ok () s') : s'.vm_cpu = s.vm_cpu ∧ s'.shared = s.shared := by
  unfold allocateRam at h
  split at h
  · split at h <;> cases h
    exact ⟨rfl, rfl⟩
  · split at h
    · cases h
    · split at h
      · cases h
        exact ⟨rfl, rfl⟩
      · split at h
        · split at h <;> cases h
          exact ⟨rfl, rfl⟩
        · cases h

/-- **Where the loader has its buffers there was room.** -/
theorem loadable_of_buffers {s₁ s₂ : LoadState} (h₁ : allocateCpu lay alloc s = .ok () s₁)
    (h₂ : allocateRam lay alloc n s₁ = .ok () s₂) (hbuf : s₂.HasBuffers) : Loadable lay alloc (s.shape lay) n := by
  obtain ⟨⟨c, hc⟩, hm, sh, hsh⟩ := hbuf
  obtain ⟨hshared, hram, hsize, hlive⟩ := allocateCpu_bytes h₁
  obtain ⟨hcpu₂, hshared₂⟩ := allocateRam_frame h₂
  rw [hcpu₂] at hc
  have hfits := (allocateRam_iff hc).1 ⟨s₂, h₂, hcpu₂, hshared₂, hm⟩
  refine ⟨attached_iff.2 ⟨sh, ?_⟩, hlive.1 ⟨c, hc⟩, newCpu_of_ok h₁, ?_⟩
  · rw [← hshared, ← hshared₂, hsh]
  · rw [hram] at hfits
    rw [hsize, hc]
    exact hfits

end Room

/-! ## The parts of the file -/

section Parts

variable {lay : CpuLayout} {jit pgUartTx : List U8} {path : String} {f : List U8} {s : LoadState}

/-- **Where the file is whole its parts are read**, into the buffers there are. -/
theorem readSections_whole (h : LoadsWhole lay f) {c m : Buffer} {sh : SharedConsole} (hc : s.vm_cpu.bytes? = some c)
    (hm : s.vm_ram.bytes? = some m) (hsh : s.shared = some sh) :
    ∃ text s', readSections lay jit pgUartTx path f s = .ok text s' ∧ Loaded lay jit pgUartTx f s' := by
  obtain ⟨hwhole, hconsole⟩ := h
  have hclamp := clampConsole_of_lt hconsole
  have hrest : ∀ o n, o + n ≤ f.length → ¬ (f.drop o).length < n := by
    intro o n hon
    rw [List.length_drop]
    omega
  unfold readSections
  simp only [bind, EStateM.bind, readCpu, readRam, readConsole, finishLoad, hc, hm, hsh, hclamp, Int.toNat_natCast,
    ProcPtr.bytes?_edit, Option.map_some, if_neg (hrest headerSize lay.size (by omega)),
    if_neg (hrest (headerSize + lay.size) (hdrRamSize f) (by omega)),
    if_neg (hrest (headerSize + lay.size + hdrRamSize f) (hdrConsoleSize f) hwhole)]
  refine ⟨_, _, rfl, ⟨_, (ProcPtr.bytes?_edit _ _).trans (by rw [ProcPtr.bytes?_edit, hc]; rfl), fun i hi hhost => ?_⟩,
    ⟨_, (ProcPtr.bytes?_edit _ _).trans (by rw [hm]; rfl), fun i hi => ?_⟩, _, rfl, rfl, ?_, ?_, fun i hi => ?_⟩
  · rw [poke_take c hi (by omega)]
    exact congrArg some (foldl_poke_outside _ _ hhost).symm
  · exact poke_take m hi (by omega)
  · exact Int.natCast_nonneg _
  · exact Int.ofNat_lt.2 hconsole
  · have hne : ¬ ((i : Int) = hdrConsoleSize f) := by omega
    rw [poke_take sh.console_buf hi hwhole]
    exact congrArg some (if_neg hne).symm

theorem headerSize_le (h : headerError f lay = none) : headerSize ≤ f.length := by
  unfold headerError at h
  split at h
  · cases h
  next hlen => exact Nat.le_of_not_lt hlen

section Steps

variable {rest : List U8} {s' : LoadState} {n : Nat} {e : LoadStop}

theorem readCpu_ok (h : readCpu lay rest s = .ok () s') : ∃ sh c, s.shared = some sh ∧ s.vm_cpu.bytes? = some c ∧
    lay.size ≤ rest.length ∧ s'.shared = some { sh with console_pos := 0 } ∧ s'.vm_ram = s.vm_ram := by
  unfold readCpu at h
  split at h
  next sh c hsh hc =>
    dsimp only at h
    split at h <;> cases h
    next hlen => exact ⟨sh, c, hsh, hc, Nat.le_of_not_lt hlen, rfl, rfl⟩
  · cases h

theorem readCpu_error (h : readCpu lay rest s = .error e s') :
    e = .undefined ∨ ∃ sh, s'.shared = some sh ∧ sh.console_pos = 0 := by
  unfold readCpu at h
  split at h
  · dsimp only at h
    split at h <;> cases h
    exact .inr ⟨_, rfl, rfl⟩
  · cases h
    exact .inl rfl

theorem readRam_ok (h : readRam n rest s = .ok () s') :
    (∃ m, s.vm_ram.bytes? = some m) ∧ n ≤ rest.length ∧ s'.shared = s.shared := by
  unfold readRam at h
  split at h
  next m hm =>
    dsimp only at h
    split at h <;> cases h
    next hlen => exact ⟨⟨m, hm⟩, Nat.le_of_not_lt hlen, rfl⟩
  · cases h

theorem readRam_error (h : readRam n rest s = .error e s') : e = .undefined ∨ s'.shared = s.shared := by
  unfold readRam at h
  split at h
  · dsimp only at h
    split at h <;> cases h
    exact .inr rfl
  · cases h
    exact .inl rfl

theorem readConsole_ok (h : readConsole n rest s = .ok () s') : (clampConsole n).toNat ≤ rest.length := by
  unfold readConsole at h
  split at h
  · dsimp only at h
    split at h <;> cases h
    next hlen => exact Nat.le_of_not_lt hlen
  · cases h

/-- However the console is read, its position is the clamped one. -/
theorem readConsole_pos {sh sh' : SharedConsole} (hsh : s.shared = some sh)
    (h : (Prog.final (readConsole n rest s)).shared = some sh') : sh'.console_pos = clampConsole n := by
  unfold readConsole at h
  rw [hsh] at h
  dsimp only at h
  generalize clampConsole n = pos at h ⊢
  split at h <;> exact (congrArg SharedConsole.console_pos (Option.some.inj h)).symm

theorem finishLoad_error (h : finishLoad lay jit pgUartTx path s = .error e s') : e = .undefined := by
  unfold finishLoad at h
  split at h <;> cases h
  rfl

theorem finishLoad_shared {text : String} (h : finishLoad lay jit pgUartTx path s = .ok text s') :
    s'.shared = s.shared := by
  unfold finishLoad at h
  split at h
  · injection h with _ hs
    rw [← hs]
  · cases h

end Steps

/-- A load that began in `s₀`, whose console position is neither the 0 that is stored first nor the one that is stored
last, reports an error with the console of `s₀`, or gets the whole file: **no other end is transactional.** -/
theorem buffers_of_transactional {s₀ : LoadState} (hheader : headerSize ≤ f.length) (hshared : s.shared = s₀.shared)
    (hpos : ∀ sh, s₀.shared = some sh → sh.console_pos ≠ 0 ∧ sh.console_pos ≠ clampConsole (hdrConsoleSize f))
    (ht : Transactional lay jit pgUartTx f s₀ (readSections lay jit pgUartTx path f s)) :
    s.HasBuffers ∧ LoadsWhole lay f := by
  have hzero : ∀ {t : LoadState}, (∃ sh, t.shared = some sh ∧ sh.console_pos = 0) → t ≠ s₀ := by
    rintro t ⟨sh, hsh, h⟩ rfl
    exact (hpos sh hsh).1 h
  unfold readSections at ht
  obtain ⟨⟨⟩, s₁, h₁, ht⟩ := ht.of_bind fun e s' h => (readCpu_error h).imp_right hzero
  obtain ⟨sh, c, hsh, hc, hcpu, hsh₁, hram₁⟩ := readCpu_ok h₁
  obtain ⟨⟨⟩, s₂, h₂, ht⟩ := ht.of_bind fun e s' h => (readRam_error h).imp_right fun hs' =>
    hzero ⟨_, hs'.trans hsh₁, rfl⟩
  obtain ⟨hm, hram, hsh₂⟩ := readRam_ok h₂
  have hlast : ∀ sh', (Prog.final (readConsole (hdrConsoleSize f)
      (f.drop (headerSize + lay.size + hdrRamSize f)) s₂)).shared = some sh' →
      sh'.console_pos = clampConsole (hdrConsoleSize f) := fun sh' => readConsole_pos (hsh₂.trans hsh₁)
  obtain ⟨⟨⟩, s₃, h₃, ht⟩ := ht.of_bind fun e s' h => by
    rw [h] at hlast
    by_cases hs' : s' = s₀
    · refine absurd (hlast _ (?_ : s'.shared = some sh)) (hpos sh (hshared ▸ hsh)).2
      rw [hs', ← hshared, hsh]
    · exact .inr hs'
  have hconsole := readConsole_ok h₃
  cases hfinish : finishLoad lay jit pgUartTx path s₃ with
  | error e s' =>
    rw [hfinish, finishLoad_error hfinish] at ht
    exact absurd ht Transactional.not_undefined
  | ok text s' =>
    rw [hfinish] at ht
    obtain ⟨-, -, sh', hsh', hsize, -, hfits, -⟩ := ht.isLoaded
    have hat : clampConsole (hdrConsoleSize f) = hdrConsoleSize f := by
      rw [← hsize]
      rw [h₃] at hlast
      exact (hlast sh' ((finishLoad_shared hfinish).symm.trans hsh')).symm
    rw [hat, Int.toNat_natCast] at hconsole
    rw [hsize] at hfits
    rw [List.length_drop] at hcpu hram hconsole
    rw [hram₁] at hm
    exact ⟨⟨⟨c, hc⟩, hm, sh, hsh⟩, by omega, Int.ofNat_lt.1 hfits⟩

end Parts

/-! ## The result -/

section Spoiled

variable (lay : CpuLayout) (pos : Int) (s : LoadState)

/-- A process of the same shape: another console position, and a byte after the CPU's `ram_size` that is not 0. -/
def LoadState.spoiled : LoadState where
  vm_cpu := s.vm_cpu.edit fun c => poke c (lay.ram_size + 8) [1]
  vm_ram := s.vm_ram
  shared := s.shared.map fun sh => { sh with console_pos := pos }

theorem fieldOf_poke_after (c : Buffer) (o : Nat) (l : List U8) : fieldOf (poke c (o + 8) l) o 8 = fieldOf c o 8 := by
  unfold fieldOf
  congr 1
  refine List.map_congr_left fun k hk => poke_outside c (o + 8) l ?_
  have := List.mem_range.1 hk
  omega

theorem spoiled_shape : (s.spoiled lay pos).shape lay = s.shape lay := by
  unfold LoadState.shape LoadState.spoiled
  simp only [ProcPtr.kind_edit, ProcPtr.bytes?_edit, Option.map_map, Function.comp_def, fieldOf_poke_after]

/-- It differs from every process whose CPU is allocated anew. -/
theorem spoiled_cpu_ne : (s.spoiled lay pos).vm_cpu ≠ .palloced fun _ => 0 := by
  have hbyte : ∀ c : Buffer, poke c (lay.ram_size + 8) [1] ≠ fun _ => 0 := by
    intro c heq
    have hat : poke c (lay.ram_size + 8) [1] (lay.ram_size + 8 : Nat) = 1 := by simp [poke]
    rw [heq] at hat
    exact absurd (show (0 : U8) = 1 from hat) (by decide)
  unfold LoadState.spoiled
  cases s.vm_cpu with
  | palloced c => exact fun h => hbyte c (ProcPtr.palloced.inj h)
  | null | mapped | dangling => exact fun h => nomatch h

end Spoiled

theorem exists_other_pos (pos : Int) : ∃ q : Int, q ≠ 0 ∧ q ≠ pos := by
  by_cases hone : pos = 1
  · exact ⟨2, by decide, by rw [hone]; decide⟩
  · exact ⟨1, by decide, fun heq => hone heq.symm⟩

section Sections

variable {lay : CpuLayout} {alloc : Nat → Bool} {jit pgUartTx : List U8} {path : String} {f : List U8} {s : LoadState}

theorem transactional_whole (h : Loadable lay alloc (s.shape lay) (hdrRamSize f)) (hwhole : LoadsWhole lay f) :
    Transactional lay jit pgUartTx f s (loadSections lay alloc jit pgUartTx path f s) := by
  obtain ⟨s₁, s₂, h₁, h₂, ⟨c, hc⟩, ⟨m, hm⟩, sh, hsh⟩ := exists_buffers h
  obtain ⟨text, s', hrun, hloaded⟩ := @readSections_whole lay jit pgUartTx path f s₂ hwhole c m sh hc hm hsh
  unfold loadSections
  rw [Prog.bind_of_ok h₁, Prog.bind_of_ok h₂, hrun]
  exact .loaded hloaded

theorem transactional_outOfMemory (h : OutOfMemory lay alloc (s.shape lay) f) :
    Transactional lay jit pgUartTx f s (loadSections lay alloc jit pgUartTx path f s) := by
  have hmem : LoadStop.noMemory ≠ .undefined := fun h => nomatch h
  unfold loadSections
  rcases h with ⟨hready, halloc⟩ | ⟨hready, hnull, halloc⟩
  · have hcpu : allocateCpu lay alloc s = .error .noMemory s := by
      unfold allocateCpu
      rw [if_neg (ready_iff.not.2 hready), halloc, if_neg Bool.false_ne_true]
    rw [Prog.bind_of_error hcpu]
    exact .refused hmem
  · have hcpu : allocateCpu lay alloc s = .ok () s := allocateCpu_eq_ok.2 (.inl ⟨ready_iff.2 hready, rfl⟩)
    have hram : s.vm_ram = .null := by
      cases hr : s.vm_ram <;> simp only [LoadState.shape, hr, ProcPtr.kind, reduceCtorEq] at hnull
      rfl
    rw [Prog.bind_of_ok hcpu, Prog.bind_of_error (by rw [allocateRam_null hram, halloc, if_neg Bool.false_ne_true])]
    exact .refused hmem

theorem allocateCpu_error {e : LoadStop} {s' : LoadState} (h : allocateCpu lay alloc s = .error e s') :
    s.ready = false ∧ alloc lay.size = false := by
  unfold allocateCpu at h
  split at h
  · cases h
  next hready =>
    split at h <;> cases h
    next halloc => exact ⟨eq_false_of_ne_true hready, eq_false_of_ne_true halloc⟩

/-- An allocation of RAM that is refused frees the RAM there is, or there was none. -/
theorem allocateRam_error {n : Nat} {e : LoadStop} {s' : LoadState} (h : allocateRam lay alloc n s = .error e s') :
    e = .undefined ∨ (s.vm_ram = .null ∧ alloc n = false ∧ s' = s) ∨ s'.vm_ram ≠ s.vm_ram := by
  unfold allocateRam at h
  split at h
  next hr =>
    split at h <;> cases h
    next halloc => exact .inr (.inl ⟨hr, eq_false_of_ne_true halloc, rfl⟩)
  next hr =>
    split at h
    · cases h
      exact .inl rfl
    · split at h
      · cases h
      · split at h
        next hp =>
          split at h <;> cases h
          exact .inr (.inr fun heq => nomatch heq.trans hp)
        · cases h
          exact .inl rfl

/-- **A load that is transactional where everything it may store is new to the process** runs out of memory first, or
has its room and its file. -/
theorem room_of_transactional (hacc : headerError f lay = none)
    (hpos : ∀ sh, s.shared = some sh → sh.console_pos ≠ 0 ∧ sh.console_pos ≠ clampConsole (hdrConsoleSize f))
    (hcpu : s.vm_cpu ≠ .palloced fun _ => 0)
    (ht : Transactional lay jit pgUartTx f s (loadSections lay alloc jit pgUartTx path f s)) :
    OutOfMemory lay alloc (s.shape lay) f ∨ (Loadable lay alloc (s.shape lay) (hdrRamSize f) ∧ LoadsWhole lay f) := by
  by_cases hmem : OutOfMemory lay alloc (s.shape lay) f
  · exact .inl hmem
  refine .inr ?_
  unfold loadSections at ht
  obtain ⟨⟨⟩, s₁, h₁, ht⟩ := ht.of_bind fun e s' h => by
    obtain ⟨hready, halloc⟩ := allocateCpu_error h
    exact absurd (.inl ⟨ready_iff.not.1 (ne_true_of_eq_false hready), halloc⟩) hmem
  obtain ⟨hshared, hram, -, -⟩ := allocateCpu_bytes h₁
  obtain ⟨⟨⟩, s₂, h₂, ht⟩ := ht.of_bind fun e s' h => by
    rcases allocateRam_error h with hundef | ⟨hnull, halloc, rfl⟩ | hfreed
    · exact .inl hundef
    · rcases allocateCpu_eq_ok.1 h₁ with ⟨hready, rfl⟩ | ⟨-, -, rfl⟩
      · exact absurd (.inr ⟨ready_iff.1 hready, congrArg ProcPtr.kind hnull, halloc⟩) hmem
      · exact .inr fun heq => hcpu (congrArg LoadState.vm_cpu heq).symm
    · exact .inr fun heq => hfreed (by rw [heq, hram])
  have hshared₂ := (allocateRam_frame h₂).2.trans hshared
  obtain ⟨hbuf, hwhole⟩ := buffers_of_transactional (headerSize_le hacc) hshared₂ hpos ht
  exact ⟨loadable_of_buffers h₁ h₂ hbuf, hwhole⟩

end Sections

/-- **A process keeps what it has or gets what the file holds, whatever it has**, exactly when the header is refused, or
memory runs out before anything is touched, or the process can be loaded into and the file is whole. -/
theorem vmLoad_transactional_iff (lay : CpuLayout) (alloc : Nat → Bool) (jit pgUartTx : List U8) (path : String)
    (f : List U8) (p : LoadState) :
    (∀ s : LoadState, s.shape lay = p.shape lay →
      Transactional lay jit pgUartTx f s (vmLoad lay alloc jit pgUartTx path (some f) s)) ↔
      headerError f lay ≠ none ∨ OutOfMemory lay alloc (p.shape lay) f ∨
        (Loadable lay alloc (p.shape lay) (hdrRamSize f) ∧ LoadsWhole lay f) := by
  unfold vmLoad
  dsimp only
  cases hacc : headerError f lay with
  | some msg =>
    refine iff_of_true (fun s _ => .refused ?_) (.inl (Option.some_ne_none msg))
    exact fun h => nomatch h
  | none =>
    rw [or_iff_right fun h => h rfl]
    constructor
    · intro h
      obtain ⟨pos, hzero, hlast⟩ := exists_other_pos (clampConsole (hdrConsoleSize f))
      have hshape := spoiled_shape lay pos p
      have hpos : ∀ sh, (p.spoiled lay pos).shared = some sh →
          sh.console_pos ≠ 0 ∧ sh.console_pos ≠ clampConsole (hdrConsoleSize f) := by
        intro sh hsh
        obtain ⟨sh', -, rfl⟩ := Option.map_eq_some_iff.1 hsh
        exact ⟨hzero, hlast⟩
      rw [← hshape]
      exact room_of_transactional hacc hpos (spoiled_cpu_ne lay pos p) (h _ hshape)
    · rintro (hnone | ⟨hload, hwhole⟩) s hs
      · exact transactional_outOfMemory (hs ▸ hnone)
      · exact transactional_whole (hs ▸ hload) hwhole

/-- A process whose CPU is filled with `b`, and a console of `pos` bytes. -/
def filledState (b : U8) (pos : Int) : LoadState := ⟨.palloced fun _ => b, .palloced fun _ => 0, some ⟨true, pos, fun _ => 0⟩⟩

/-- The header of a snapshot of a CPU of 4096 bytes, a page of RAM and no console, and no more. -/
def headerFile : List U8 :=
  [0x52, 0x56, 0x53, 0x4E, 0x41, 0x50, 0x53, 0x48, 1, 0, 0, 0, 0, 0, 0, 0] ++
    [0, 0x10, 0, 0, 0, 0, 0, 0] ++ [0, 0x10, 0, 0, 0, 0, 0, 0] ++ List.replicate 88 0

def pageLayout : CpuLayout where
  size := 0x1000
  pc := 256
  priv := 528
  instret := 720
  tlb := 1024
  tlb_size := 2048
  tx_callback := 3072
  tx_opaque := 3080
  ram_size := 3200
  jit := 3208
  debug_halt := 3216

/-- The load reports an error, and the console is empty. -/
theorem not_transactional_headerOnly : ¬ Transactional pageLayout [] [] headerFile
    (filledState 0 5) (vmLoad pageLayout (fun _ => true) [] [] "snapshot" (some headerFile) (filledState 0 5)) := by
  intro h
  have hfail : Prog.failure (vmLoad pageLayout (fun _ => true) [] [] "snapshot" (some headerFile) (filledState 0 5)) =
      some (.elog "vm_load: cannot read cpu struct") := by decide +kernel
  have hpos : ((Prog.final (vmLoad pageLayout (fun _ => true) [] [] "snapshot" (some headerFile)
      (filledState 0 5))).shared.map fun sh => sh.console_pos) = some 0 := by decide +kernel
  rw [h.final_of_failure hfail] at hpos
  exact absurd hpos (by decide)

end PgLinux
