import PgLinux.Cpu
import PgLinux.Lib.Prog
/-!
# Mmu — Sv39 translation and memory access (`rv64_mmu.c`, `rv64_cpu_load`, `cpu_store`)

An access either succeeds or stops with an exception code; the state it reached is kept in both cases, as in C.
Translation is there twice: inline in the load and store fast paths (`loadFast`, `storeFast`), and in `rv64Translate`.
-/
namespace PgLinux

inductive AccessType where
  | read | write | exec
deriving DecidableEq

/-- A step of the machine that may stop with an exception code. -/
abbrev Access := EStateM U64 Cpu

def faultCode : AccessType → U64
  | .exec => excInsnPageFault
  | .read => excLoadPageFault
  | .write => excStorePageFault

/-! ## Permission bits of a PTE or a TLB entry -/

def pteV (v : U64) : Bool := v.getLsbD 0
def pteR {n : Nat} (v : BitVec n) : Bool := v.getLsbD 1
def pteW {n : Nat} (v : BitVec n) : Bool := v.getLsbD 2
def pteX {n : Nat} (v : BitVec n) : Bool := v.getLsbD 3
def pteU {n : Nat} (v : BitVec n) : Bool := v.getLsbD 4
def pteA : U64 := 1 <<< 6
def pteD : U64 := 1 <<< 7
def rwxMask : U64 := 0xE
def permMask : U64 := 0x1E

def Cpu.sum (c : Cpu) : Bool := c.csr.mstatus.getLsbD 18
def Cpu.mxr (c : Cpu) : Bool := c.csr.mstatus.getLsbD 19

/-- The U-bit rules: user code needs it, supervisor code must not have it unless SUM is set. -/
def privOk (c : Cpu) (user : Bool) : Bool := !(c.priv == privU && !user) && !(c.priv == privS && user && !c.sum)

def readOk (c : Cpu) (r x : Bool) : Bool := r || (c.mxr && x)

/-- The R, W, X rules. -/
def accessOk (c : Cpu) {n : Nat} (perm : BitVec n) : AccessType → Bool
  | .read => readOk c (pteR perm) (pteX perm)
  | .write => pteW perm
  | .exec => pteX perm

/-! ## TLB lookup -/

def vpnOf (va : U64) : U64 := va >>> 12
def pageOffset (va : U64) : U64 := va &&& 0xFFF
def tlbIndex (va : U64) : BitVec 12 := (vpnOf va).setWidth 12
def Cpu.tlbEntry (c : Cpu) (va : U64) : TlbEntry := c.tlb (tlbIndex va)
def TlbEntry.hits (te : TlbEntry) (va : U64) : Bool := te.valid && te.vpn == vpnOf va

theorem pageOffset_toNat (va : U64) : (pageOffset va).toNat = va.toNat % 4096 := by
  unfold pageOffset
  rw [BitVec.toNat_and]
  exact Nat.and_two_pow_sub_one_eq_mod va.toNat 12

def levelMask (level : U8) : U64 :=
  if level = 2 then 0x3FFFFFFF else if level = 1 then 0x1FFFFF else 0xFFF

/-- `(te->ppn << PAGE_SHIFT) | page_offset`. -/
def TlbEntry.pa (te : TlbEntry) (va : U64) : U64 := te.ppn <<< 12 ||| (va &&& levelMask te.level)

/-- Whether a cached entry allows an access; a write needs the dirty flag too. -/
def tlbAllows (c : Cpu) (te : TlbEntry) (access : AccessType) : Bool :=
  accessOk c te.perm access && (access != .write || te.dirty) && privOk c (pteU te.perm)

def tlbLookup (c : Cpu) (va : U64) (access : AccessType) : Option U64 :=
  let te := c.tlbEntry va
  if te.hits va && tlbAllows c te access then some (te.pa va) else none

/-! ## Page table walk -/

def vpnAt (va : U64) (level : Nat) : U64 := (va >>> (12 + 9 * level)) &&& 0x1FF
def rootTable (satp : U64) : U64 := (satp &&& 0xFFFFFFFFFFF) <<< 12
def pteAddr (ptAddr va : U64) (level : Nat) : U64 := ptAddr + vpnAt va level * 8
def nextTable (pte : U64) : U64 := ((pte >>> 10) &&& 0xFFFFFFFFFFF) <<< 12

/-- `pte_addr >= RAM_BASE && pte_addr + 8 <= RAM_BASE + cpu->ram_size`. -/
def pteInRam (ramSize a : U64) : Bool := decide (ramBase ≤ a) && decide (a + 8 ≤ ramBase + ramSize)

def busLoadM (pa : U64) (size : Nat) : Access U64 := do
  let c ← get
  let r := busLoad c.ram_size c.bus pa size
  set { c with bus := r.2 }
  return r.1

/-- A page table entry, read inline from RAM or over the bus. -/
def readPte (a : U64) : Access U64 := do
  let c ← get
  if pteInRam c.ram_size a then return c.bus.mem.ram.read (a - ramBase) 8 else busLoadM a 8

/-- W without R is reserved. -/
def pteReserved (pte : U64) : Bool := pteW pte && !pteR pte

def pteLeaf (pte : U64) : Bool := pte &&& rwxMask != 0

def superpageAligned (level : Nat) (pte : U64) : Bool :=
  if level = 2 then (pte >>> 19) &&& 0x1FF == 0 && (pte >>> 10) &&& 0x1FF == 0
  else if level = 1 then (pte >>> 10) &&& 0x1FF == 0
  else true

/-- The checks on a leaf; all of them end in the same fault. -/
def leafAllows (c : Cpu) (access : AccessType) (level : Nat) (pte : U64) : Bool :=
  privOk c (pteU pte) && accessOk c pte access && superpageAligned level pte

def withAD (pte : U64) (access : AccessType) : U64 :=
  if access = .write then pte ||| pteA ||| pteD else pte ||| pteA

def leafPa (level : Nat) (pte va : U64) : U64 :=
  let ppn := pte >>> 10
  if level = 2 then ppn <<< 12 ||| vpnAt va 1 <<< 21 ||| vpnAt va 0 <<< 12 ||| pageOffset va
  else if level = 1 then (ppn >>> 9) <<< 21 ||| vpnAt va 0 <<< 12 ||| pageOffset va
  else ppn <<< 12 ||| pageOffset va

/-- The host pointer cached for a page of RAM. -/
def hostBase (ramSize pagePa : U64) : Option U64 :=
  if decide (ramBase ≤ pagePa) && decide (pagePa + 4096 ≤ ramBase + ramSize) then some (pagePa - ramBase) else none

/-- The entry a successful walk leaves in the TLB. -/
def leafEntry (ramSize va : U64) (level : Nat) (pte newPte : U64) : TlbEntry :=
  let ppn := leafPa level pte va >>> 12
  { vpn := vpnOf va, ppn := ppn, host_base := hostBase ramSize (ppn <<< 12), perm := (pte &&& permMask).setWidth 8
    level := BitVec.ofNat 8 level, dirty := newPte.getLsbD 7, valid := true }

variable [NetDevice]

def busStoreM (pa : U64) (size : Nat) (val : U64) : Access Unit :=
  modify fun c => { c with bus := busStore c.ram_size c.bus pa size val }

/-- A leaf that passed its checks: A and D bits, TLB entry, physical address. -/
def walkLeaf (va : U64) (access : AccessType) (level : Nat) (a pte : U64) : Access U64 := do
  let newPte := withAD pte access
  if newPte ≠ pte then busStoreM a 8 newPte
  modify fun c => { c with tlb := setAt c.tlb (tlbIndex va) (leafEntry c.ram_size va level pte newPte) }
  return leafPa level pte va

/-- The walk, from `level + 1` levels down. -/
def walk (va : U64) (access : AccessType) : Nat → U64 → Access U64
  | 0, _ => throw (faultCode access)
  | level + 1, ptAddr => do
    let a := pteAddr ptAddr va level
    let pte ← readPte a
    if !pteV pte || pteReserved pte then throw (faultCode access)
    if pteLeaf pte then
      if leafAllows (← get) access level pte then walkLeaf va access level a pte else throw (faultCode access)
    else walk va access level (nextTable pte)

def rv64Translate (va : U64) (access : AccessType) : Access U64 := do
  let c ← get
  if c.priv = privM then return va
  else if satpMode c.csr.satp = satpModeBare then return va
  else
    match tlbLookup c va access with
    | some pa => return pa
    | none => walk va access 3 (rootTable c.csr.satp)

/-! ## Loads -/

def crossesPage (va : U64) (size : Nat) : Bool := decide (4096 < (pageOffset va).toNat + size)

/-- The inline fast path: the offset into RAM it reads at. -/
def loadFast (c : Cpu) (va : U64) (size : Nat) (access : AccessType) : Option U64 :=
  let te := c.tlbEntry va
  if te.hits va && (if access = .exec then pteX te.perm else readOk c (pteR te.perm) (pteX te.perm)) &&
      privOk c (pteU te.perm) && !crossesPage va size then
    te.host_base.map fun h => h + pageOffset va
  else none

/-- A load that crosses a page, byte `i` on, with `n` to go. -/
def loadBytes (va : U64) (access : AccessType) : Nat → Nat → U64 → Access U64
  | 0, _, result => return result
  | n + 1, i, result => do
    let pa ← rv64Translate (va + BitVec.ofNat 64 i) access
    let v ← busLoadM pa 1
    loadBytes va access n (i + 1) (result ||| (v &&& 0xFF) <<< (i * 8))

def rv64CpuLoad (va : U64) (size : Nat) (access : AccessType) : Access U64 := do
  let c ← get
  match loadFast c va size access with
  | some p => return c.bus.mem.ram.read p size
  | none =>
    if crossesPage va size then loadBytes va access size 0 0
    else
      let pa ← rv64Translate va access
      busLoadM pa size

/-! ## Stores -/

/-- The watchpoint log, before the store is tried. -/
def logStore (va : U64) (size : Nat) (val : U64) (c : Cpu) : Cpu :=
  if c.dbg.watch_active && decide (va < c.dbg.watch_addr + c.dbg.watch_size.setWidth 64) &&
      decide (c.dbg.watch_addr < va + BitVec.ofNat 64 size) then
    { c with dbg := { c.dbg with
      store_log := setAt c.dbg.store_log (c.dbg.store_log_count.srem 64) ⟨c.pc, va, val, size, c.instret⟩
      store_log_count := c.dbg.store_log_count + 1 } }
  else c

def storeFast (c : Cpu) (va : U64) (size : Nat) : Option U64 :=
  let te := c.tlbEntry va
  if te.hits va && (pteW te.perm && te.dirty) && privOk c (pteU te.perm) && !crossesPage va size then
    te.host_base.map fun h => h + pageOffset va
  else none

def Cpu.writeRam (c : Cpu) (p : U64) (size : Nat) (val : U64) : Cpu :=
  { c with bus := { c.bus with mem := { c.bus.mem with ram := c.bus.mem.ram.write p size val } } }

def storeBytes (va val : U64) : Nat → Nat → Access Unit
  | 0, _ => return ()
  | n + 1, i => do
    let pa ← rv64Translate (va + BitVec.ofNat 64 i) .write
    busStoreM pa 1 ((val >>> (i * 8)) &&& 0xFF)
    storeBytes va val n (i + 1)

/-- `cpu_store` after the watchpoint check. -/
def storeAt (va : U64) (size : Nat) (val : U64) : Access Unit := do
  let c ← get
  match storeFast c va size with
  | some p => set (c.writeRam p size val)
  | none =>
    if crossesPage va size then storeBytes va val size 0
    else
      let pa ← rv64Translate va .write
      busStoreM pa size val

def cpuStore (va : U64) (size : Nat) (val : U64) : Access Unit := do
  modify (logStore va size val)
  storeAt va size val

end PgLinux
