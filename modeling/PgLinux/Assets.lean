import PgLinux.Blocks
import PgLinux.Cpu
/-!
# Assets — large objects, `vm_assets` and the device-tree patch (`rv64_pgext.c`)

A large object stands in the row that holds its OID; no two rows share one.  `none` is `InvalidOid`.  Allocation and
SQL are taken to succeed.
-/
namespace PgLinux

/-! ## Large objects -/

structure LargeObject where
  data : Mem
  size : U64

/-- `lo_write_buf`: an object that is longer than the buffer keeps its tail. -/
def loWriteBuf (buf : Mem) (len : U64) (existing : Option LargeObject) : LargeObject :=
  match existing with
  | none => ⟨Mem.copy (fun _ => 0) 0 buf 0 len.toNat, len⟩
  | some lo => ⟨lo.data.copy 0 buf 0 len.toNat, if lo.size < len then len else lo.size⟩

/-- `lo_read_buf` into `buf + off`: the bytes read, `none` for -1. -/
def loReadBuf (oid : Option LargeObject) (buf : Mem) (off len : U64) : Mem × Option U64 :=
  match oid with
  | none => (buf, none)
  | some lo =>
    let n := if lo.size < len then lo.size else len
    (buf.copy off lo.data 0 n.toNat, some n)

/-! ## Assets -/

inductive Asset where
  | firmware | kernel | dtb | initrd | disk
deriving DecidableEq

structure AssetRow where
  data_oid : Option LargeObject
  size_bytes : U64

abbrev VmAssets := Asset → Option AssetRow

/-- `load_asset_from_db`: guest RAM, and the size loaded (`none` for a negative `long`). -/
def loadAssetFromDb (assets : VmAssets) (ram : Mem) (ramSize loadAddr : U64) (a : Asset) : Mem × Option U64 :=
  match assets a with
  | none => (ram, none)
  | some row =>
    if row.data_oid.isNone then (ram, none)
    else if loadAddr - ramBase + row.size_bytes ≤ ramSize then
      let r := loReadBuf row.data_oid ram (loadAddr - ramBase) row.size_bytes
      (r.1, if r.2 = some row.size_bytes ∧ row.size_bytes.msb = false then some row.size_bytes else none)
    else (ram, none)

/-- `load_disk_from_db`: the image and its size; `none` for a NULL pointer. -/
def loadDiskFromDb (assets : VmAssets) : Option (Mem × U64) :=
  match assets .disk with
  | none => none
  | some row =>
    let r := loReadBuf row.data_oid (fun _ => 0) 0 row.size_bytes
    if r.2 = some row.size_bytes then some (r.1, row.size_bytes) else none

/-! ## The device-tree patch -/

def firmwareAddr : U64 := 0x80000000
def kernelAddr : U64 := 0x80200000
def dtbAddr : U64 := 0x82000000
def initrdAddr : U64 := 0x82200000

/-- Byte `p` of the device tree. -/
def dtbByte (ram : Mem) (p : U32) : U8 := ram (dtbAddr - ramBase + p.setWidth 64)

def dtbWord (ram : Mem) (p : U32) : U32 :=
  (dtbByte ram p ++ dtbByte ram (p + 1) ++ dtbByte ram (p + 2) ++ dtbByte ram (p + 3) : BitVec 32)

/-- `"linux,initrd-end"` with its NUL. -/
def dtbTarget : List U8 := ("linux,initrd-end".toList.map fun ch => BitVec.ofNat 8 ch.toNat) ++ [0]

def matchesAt (ram : Mem) (a : U64) : List U8 → Bool
  | [] => true
  | b :: bs => ram a == b && matchesAt ram (a + 1) bs

/-- The search of the strings block, from `i` with `n` to go. -/
def findString (ram : Mem) (offStrings sizeStrings : U32) : Nat → U32 → Option U32
  | 0, _ => none
  | n + 1, i =>
    if i + 17 ≤ sizeStrings then
      if matchesAt ram (dtbAddr - ramBase + offStrings.setWidth 64 + i.setWidth 64) dtbTarget then some i
      else findString ram offStrings sizeStrings n (i + 1)
    else none

/-- The scan of the structure block for a property of that name and length 8, from `p` with `n` to go. -/
def findProp (ram : Mem) (totalsize strOff : U32) : Nat → U32 → Option U32
  | 0, _ => none
  | n + 1, p =>
    if p + 12 ≤ totalsize then
      if dtbWord ram p = 3 then
        let plen := dtbWord ram (p + 4)
        if dtbWord ram (p + 8) = strOff ∧ plen = 8 then some p
        else findProp ram totalsize strOff n (p + (12 + ((plen + 3) &&& ~~~3)))
      else findProp ram totalsize strOff n (p + 4)
    else none

/-- Big-endian bytes of the value, stored at `p + 12` to `p + 19`: the indices are 32-bit. -/
def putDtbValue (ram : Mem) (p : U32) (v : U64) : Mem := fun a =>
  let d := a - (dtbAddr - ramBase)
  let i := (d.setWidth 32 - (p + 12)).toNat
  if d.toNat < 2 ^ 32 ∧ i < 8 then byteOf v (7 - i) else ram a

/-- The patch of `linux,initrd-end`.  The loops read nothing they change but their index, so `2 ^ 32` rounds are all
the different ones there are. -/
def patchDtb (ram : Mem) (initrdSize : U64) : Mem :=
  if dtbWord ram 0 = 0xd00dfeed then
    match findString ram (dtbWord ram 12) (dtbWord ram 32) (2 ^ 32) 0 with
    | none => ram
    | some strOff =>
      if strOff.msb then ram
      else
        match findProp ram (dtbWord ram 4) strOff (2 ^ 32) (dtbWord ram 8) with
        | none => ram
        | some p => putDtbValue ram p (initrdAddr + initrdSize)
  else ram

end PgLinux
