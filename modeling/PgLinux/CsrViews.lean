import PgLinux.FpStatus
import PgLinux.Lib.Window
/-!
# CsrViews — the CSRs that show parts of others

`sstatus`, `sie` and `sip` show `mstatus`, `mie` and `mip` through a mask; `fflags`, `frm` and `fcsr` show one word of
the FPU.  The masks of `sie` and `sip` are `mideleg`, which software writes as well.
-/
namespace PgLinux

open Masked

/-! ## Aliases -/

inductive CsrAlias where
  | sstatus | sie | sip | fflags | frm | fcsr
deriving DecidableEq

def CsrAlias.addr : CsrAlias → BitVec 12
  | .sstatus => 0x100
  | .sie => 0x104
  | .sip => 0x144
  | .fflags => 0x001
  | .frm => 0x002
  | .fcsr => 0x003

/-- The bits an alias shows of its word. -/
def CsrAlias.window (mideleg : U64) : CsrAlias → Window 64
  | .sstatus => .ofMask sstatusMask
  | .sie => .ofMask mideleg
  | .sip => .ofMask mideleg
  | .fflags => .ofMask 0x1F
  | .frm => ⟨0xE0, 5, by decide⟩
  | .fcsr => .ofMask 0xFF

/-- The words that aliases show, and the mask of two of them. -/
structure CsrWords where
  mstatus : U64
  mie : U64
  mip : U64
  mideleg : U64
  fcsr : U64

def CsrWords.of (c : Cpu) : CsrWords :=
  ⟨c.csr.mstatus, c.csr.mie, c.csr.mip, c.csr.mideleg, c.fcsr.setWidth 64 &&& 0xFF⟩

def CsrAlias.word (w : CsrWords) : CsrAlias → U64
  | .sstatus => w.mstatus
  | .sie => w.mie
  | .sip => w.mip
  | .fflags | .frm | .fcsr => w.fcsr

def CsrAlias.view (w : CsrWords) (a : CsrAlias) : U64 := (a.window w.mideleg).get (a.word w)

/-- The new word of a write through `a`. -/
def CsrAlias.stored (w : CsrWords) (a : CsrAlias) (val : U64) : U64 := (a.window w.mideleg).put (a.word w) val

def CsrAlias.store (w : CsrWords) (val : U64) : CsrAlias → CsrWords
  | .sstatus => { w with mstatus := CsrAlias.sstatus.stored w val }
  | .sie => { w with mie := CsrAlias.sie.stored w val }
  | .sip => { w with mip := CsrAlias.sip.stored w val }
  | .fflags => { w with fcsr := CsrAlias.fflags.stored w val }
  | .frm => { w with fcsr := CsrAlias.frm.stored w val }
  | .fcsr => { w with fcsr := CsrAlias.fcsr.stored w val }

/-- The machine with the bits of an alias, and nothing else, written. -/
def CsrAlias.change (c : Cpu) (val : U64) (a : CsrAlias) : Cpu :=
  let w := a.store (.of c) val
  match a with
  | .sstatus => { c with csr := { c.csr with mstatus := w.mstatus } }
  | .sie => { c with csr := { c.csr with mie := w.mie } }
  | .sip => { c with csr := { c.csr with mip := w.mip } }
  | .fflags | .frm | .fcsr => { c with fcsr := w.fcsr.setWidth 32 }

/-- A CSR write, as the words see it. -/
def CsrWords.write (w : CsrWords) (csr : BitVec 12) (val : U64) : CsrWords :=
  if csr = 0x300 then { w with mstatus := val }
  else if csr = 0x303 then { w with mideleg := val }
  else if csr = 0x304 then { w with mie := val }
  else if csr = 0x344 then { w with mip := val }
  else if csr = 0x14D then { w with mip := w.mip &&& ~~~mipStip }
  else match [CsrAlias.sstatus, .sie, .sip, .fflags, .frm, .fcsr].find? fun a => a.addr = csr with
    | some a => a.store w val
    | none => w

def csrWrites (c : Cpu) (ws : List (BitVec 12 × U64)) : Cpu := ws.foldl (fun c w => csrWrite c w.1 w.2) c

/-- What the views of `c` obey. -/
structure ViewsExact (c : Cpu) : Prop where
  read : ∀ a : CsrAlias, csrRead c a.addr = some (a.view (.of c))
  write : ∀ (a : CsrAlias) val csr, csrRead (csrWrite c a.addr val) csr = csrRead (a.change c val) csr
  kept : ∀ (a : CsrAlias) val, a.word (.of (csrWrite c a.addr val)) &&& ~~~(a.window c.csr.mideleg).mask =
    a.word (.of c) &&& ~~~(a.window c.csr.mideleg).mask
  rewrite : ∀ (a : CsrAlias) csr, csrRead (csrWrite c a.addr (a.view (.of c))) csr = csrRead c csr
  readBack : ∀ (a : CsrAlias) val, csrRead (csrWrite c a.addr val) a.addr = some ((a.window c.csr.mideleg).clip val)
  stimecmp : ∀ val csr, csrRead (csrWrite c 0x14D val) csr =
    if csr = 0x14D then some val
    else csrRead { c with csr := { c.csr with mip := c.csr.mip &&& ~~~mipStip } } csr
  satp : ∀ val csr, csrRead (csrWrite c 0x180 val) csr =
    if csr = 0x180 then some (if satpMode val = satpModeBare ∨ satpMode val = satpModeSv39 then val else 0)
    else csrRead c csr

/-! ## Reads -/

/-- A read looks at the CSRs, the low eight bits of `fcsr` and two counters. -/
theorem csrRead_congr {c d : Cpu} (hcsr : c.csr = d.csr) (hfcsr : c.fcsr &&& 0xFF = d.fcsr &&& 0xFF)
    (hinstret : c.instret = d.instret) (hmtime : c.bus.clint.mtime = d.bus.clint.mtime) (csr : BitVec 12) :
    csrRead c csr = csrRead d csr := by
  have hmask {m : U32} (hm : 0xFF &&& m = m) : c.fcsr &&& m = d.fcsr &&& m := by
    rw [← hm, ← BitVec.and_assoc, hfcsr, BitVec.and_assoc]
  have hflags : c.fcsr.setWidth 64 &&& 0x1F = d.fcsr.setWidth 64 &&& 0x1F := by
    simpa using congrArg (BitVec.setWidth 64) (hmask (m := 0x1F) (by decide))
  have hrm : (c.fcsr >>> 5).setWidth 64 &&& (0x7 : U64) = (d.fcsr >>> 5).setWidth 64 &&& 0x7 := by
    have h := congrArg (fun v : U32 => (v >>> 5).setWidth 64) (hmask (m := 0xE0) (by decide))
    simpa [BitVec.ushiftRight_and_distrib] using h
  have hall : c.fcsr.setWidth 64 &&& 0xFF = d.fcsr.setWidth 64 &&& 0xFF := by
    simpa using congrArg (BitVec.setWidth 64) hfcsr
  unfold csrRead
  rw [hcsr, hinstret, hmtime, hflags, hrm, hall]

theorem csrRead_alias (c : Cpu) (a : CsrAlias) : csrRead c a.addr = some (a.view (.of c)) := by
  cases a with
  | frm =>
    show some ((c.fcsr >>> 5).setWidth 64 &&& 0x7) = some ((c.fcsr.setWidth 64 &&& 0xFF &&& 0xE0) >>> 5)
    simp [BitVec.ushiftRight_and_distrib, BitVec.and_assoc]
  | _ => simp [CsrAlias.view, CsrAlias.window, CsrAlias.word, CsrWords.of, CsrAlias.addr, csrRead, BitVec.and_assoc]

theorem csrRead_stimecmp {csr : BitVec 12} (h : csr ≠ 0x14D) (c : Cpu) (val : U64) :
    csrRead { c with csr := { c.csr with stimecmp := val } } csr = csrRead c csr := by
  unfold csrRead
  split
  all_goals first
    | rfl
    | exact absurd (BitVec.eq_of_toNat_eq (by assumption)) h

theorem csrRead_satp {csr : BitVec 12} (h : csr ≠ 0x180) (c : Cpu) (val : U64) :
    csrRead { c with csr := { c.csr with satp := val } } csr = csrRead c csr := by
  unfold csrRead
  split
  all_goals first
    | rfl
    | exact absurd (BitVec.eq_of_toNat_eq (by assumption)) h

/-! ## Writes -/

theorem frm_put (f : U32) (m val : U64) : ((CsrAlias.frm.window m).put (f.setWidth 64 &&& 0xFF) val).setWidth 32 =
    (f &&& 0xFF &&& ~~~(0xE0 : U32)) ||| ((val.setWidth 32 &&& 0x7) <<< 5) := by
  have hmask : (~~~(0xE0 : U64)).setWidth 32 = ~~~(0xE0 : U32) := by decide
  have hfield : (val.setWidth 32 &&& (0x7 : U32)) <<< 5 = val.setWidth 32 <<< 5 &&& 0xE0 := by
    rw [BitVec.shiftLeft_and_distrib]
    rfl
  show (((f.setWidth 64 &&& 0xFF) &&& ~~~(0xE0 : U64)) ||| ((val <<< 5) &&& 0xE0)).setWidth 32 = _
  rw [hfield, BitVec.setWidth_or, BitVec.setWidth_and, BitVec.setWidth_and, BitVec.setWidth_and, hmask]
  simp

/-- A write through an alias leaves what the write of its bits alone leaves. -/
theorem csrWrite_change (c : Cpu) (a : CsrAlias) (val : U64) : (csrWrite c a.addr val).csr = (a.change c val).csr ∧
    (csrWrite c a.addr val).fcsr &&& 0xFF = (a.change c val).fcsr &&& 0xFF := by
  cases a with
  | sstatus | sie | sip =>
    refine ⟨?_, rfl⟩
    simp [CsrAlias.change, CsrAlias.store, CsrAlias.stored, CsrAlias.window, CsrAlias.word, CsrWords.of, CsrAlias.addr,
      csrWrite, csrUpdate, maskedWrite]
  | fflags | fcsr =>
    refine ⟨rfl, ?_⟩
    simp [CsrAlias.change, CsrAlias.store, CsrAlias.stored, CsrAlias.window, CsrAlias.word, CsrWords.of, CsrAlias.addr,
      csrWrite, BitVec.and_or_distrib_right, BitVec.and_assoc]
  | frm =>
    refine ⟨rfl, ?_⟩
    show ((c.fcsr &&& ~~~(0xE0 : U32)) ||| ((val.setWidth 32 &&& 0x7) <<< 5)) &&& 0xFF =
      ((CsrAlias.frm.window c.csr.mideleg).put (c.fcsr.setWidth 64 &&& 0xFF) val).setWidth 32 &&& 0xFF
    rw [frm_put, BitVec.and_or_distrib_right, BitVec.and_or_distrib_right, BitVec.and_assoc, BitVec.and_assoc,
      BitVec.and_assoc]
    rfl

/-- **A write through an alias reads, in every CSR, as the write of the alias's bits alone.** -/
theorem csrRead_csrWrite_alias (c : Cpu) (a : CsrAlias) (val : U64) (csr : BitVec 12) :
    csrRead (csrWrite c a.addr val) csr = csrRead (a.change c val) csr :=
  csrRead_congr (csrWrite_change c a val).1 (csrWrite_change c a val).2 (by cases a <;> rfl) (by cases a <;> rfl) csr

theorem CsrWords.of_congr {c d : Cpu} (hcsr : c.csr = d.csr) (hfcsr : c.fcsr &&& 0xFF = d.fcsr &&& 0xFF) :
    CsrWords.of c = CsrWords.of d := by
  have hlow : c.fcsr.setWidth 64 &&& 0xFF = d.fcsr.setWidth 64 &&& 0xFF := by
    simpa using congrArg (BitVec.setWidth 64) hfcsr
  unfold CsrWords.of
  rw [hcsr, hlow]

theorem low8_toNat (p : U64) : (p &&& 0xFF).toNat = p.toNat % 256 := by
  rw [BitVec.toNat_and]
  exact Nat.and_two_pow_sub_one_eq_mod p.toNat 8

/-- The FPU's word keeps to its eight bits. -/
theorem fcsr_stored (f : U32) (v : Window 64) (hv : v.mask &&& 0xFF = v.mask) (val : U64) :
    ((v.put (f.setWidth 64 &&& 0xFF) val).setWidth 32).setWidth 64 &&& 0xFF = v.put (f.setWidth 64 &&& 0xFF) val := by
  have hlow : v.put (f.setWidth 64 &&& 0xFF) val &&& 0xFF = v.put (f.setWidth 64 &&& 0xFF) val :=
    merge_and (by rw [BitVec.and_assoc, BitVec.and_self]) hv
  generalize v.put (f.setWidth 64 &&& 0xFF) val = p at hlow
  refine Eq.trans (BitVec.eq_of_toNat_eq ?_) hlow
  rw [low8_toNat, low8_toNat, BitVec.toNat_setWidth, BitVec.toNat_setWidth]
  omega

theorem words_change (c : Cpu) (a : CsrAlias) (val : U64) : CsrWords.of (a.change c val) = a.store (.of c) val := by
  have hfcsr (v : Window 64) (hv : v.mask &&& 0xFF = v.mask) :
      CsrWords.mk c.csr.mstatus c.csr.mie c.csr.mip c.csr.mideleg
        (((v.put (c.fcsr.setWidth 64 &&& 0xFF) val).setWidth 32).setWidth 64 &&& 0xFF) =
      ⟨c.csr.mstatus, c.csr.mie, c.csr.mip, c.csr.mideleg, v.put (c.fcsr.setWidth 64 &&& 0xFF) val⟩ :=
    congrArg _ (fcsr_stored c.fcsr v hv val)
  cases a with
  | sstatus | sie | sip => rfl
  | fflags => exact hfcsr (.ofMask 0x1F) rfl
  | frm => exact hfcsr ⟨0xE0, 5, by decide⟩ rfl
  | fcsr => exact hfcsr (.ofMask 0xFF) rfl

theorem words_csrWrite_alias (c : Cpu) (a : CsrAlias) (val : U64) :
    CsrWords.of (csrWrite c a.addr val) = a.store (.of c) val :=
  (CsrWords.of_congr (csrWrite_change c a val).1 (csrWrite_change c a val).2).trans (words_change c a val)

def wordCsrs : List (BitVec 12) := [0x300, 0x303, 0x304, 0x344, 0x14D, 0x100, 0x104, 0x144, 0x001, 0x002, 0x003]

theorem csrUpdate_words {csr : BitVec 12} (h : csr ∉ wordCsrs) (r : Csr) (val : U64) :
    (csrUpdate r csr val).mstatus = r.mstatus ∧ (csrUpdate r csr val).mie = r.mie ∧ (csrUpdate r csr val).mip = r.mip ∧
      (csrUpdate r csr val).mideleg = r.mideleg := by
  have hne {n : Nat} (hn : BitVec.ofNat 12 n ∈ wordCsrs) (hlt : n < 4096) : csr.toNat ≠ n := fun he =>
    h (by rwa [← he, BitVec.ofNat_toNat, BitVec.setWidth_eq] at hn)
  unfold csrUpdate
  split
  all_goals first
    | exact ⟨rfl, rfl, rfl, rfl⟩
    | exact absurd (by assumption) (hne (by decide) (by decide))

/-- **The words of a machine follow the writes.** -/
theorem words_csrWrite (c : Cpu) (csr : BitVec 12) (val : U64) :
    CsrWords.of (csrWrite c csr val) = (CsrWords.of c).write csr val := by
  have halias := fun a => words_csrWrite_alias c a val
  by_cases h : csr ∈ wordCsrs
  · simp only [wordCsrs, List.mem_cons, List.not_mem_nil, or_false] at h
    rcases h with rfl | rfl | rfl | rfl | rfl | rfl | rfl | rfl | rfl | rfl | rfl
    iterate 5 rfl
    exacts [halias .sstatus, halias .sie, halias .sip, halias .fflags, halias .frm, halias .fcsr]
  · have hwords := csrUpdate_words h c.csr val
    simp only [wordCsrs, List.mem_cons, List.not_mem_nil, or_false, not_or, BitVec.ofNat_eq_ofNat] at h
    have hkept : (CsrWords.of c).write csr val = .of c := by
      unfold CsrWords.write
      simp [h, CsrAlias.addr, eq_comm (b := csr)]
    rw [hkept]
    obtain ⟨-, -, -, -, -, -, -, -, h1, h2, h3⟩ := h
    unfold csrWrite CsrWords.of
    split
    · rfl
    · simp [h1, h2, h3, hwords]

/-! ## Sequences -/

theorem words_csrWrites : ∀ (ws : List (BitVec 12 × U64)) (c : Cpu),
    CsrWords.of (csrWrites c ws) = ws.foldl (fun w e => w.write e.1 e.2) (.of c)
  | [], _ => rfl
  | e :: ws, c => by
    show CsrWords.of (csrWrites (csrWrite c e.1 e.2) ws) = _
    rw [words_csrWrites ws, words_csrWrite]
    rfl

theorem word_store (w : CsrWords) (a : CsrAlias) (val : U64) : a.word (a.store w val) = a.stored w val := by
  cases a <;> rfl

theorem store_view (w : CsrWords) (a : CsrAlias) : a.store w (a.view w) = w := by
  have h : a.stored w (a.view w) = a.word w := Window.put_get _ _
  cases a <;> simp only [CsrAlias.store, h] <;> rfl

theorem csrRead_unchanged {c : Cpu} {a : CsrAlias} {val : U64} (h : a.store (.of c) val = .of c) (csr : BitVec 12) :
    csrRead (a.change c val) csr = csrRead c csr := by
  have hfcsr : csrRead { c with fcsr := (CsrWords.of c).fcsr.setWidth 32 } csr = csrRead c csr := by
    refine csrRead_congr ?_ ?_ ?_ ?_ csr
    · rfl
    · simp [CsrWords.of, BitVec.and_assoc]
    · rfl
    · rfl
  unfold CsrAlias.change
  rw [h]
  cases a with
  | sstatus | sie | sip => rfl
  | fflags | frm | fcsr => exact hfcsr

theorem view_stored (w : CsrWords) (a : CsrAlias) (val : U64) :
    a.view (a.store w val) = (a.window w.mideleg).clip val := by
  cases a <;> exact Window.get_put _ _ val

theorem viewsExact (c : Cpu) : ViewsExact c where
  read := csrRead_alias c
  write := csrRead_csrWrite_alias c
  kept a val := by
    rw [words_csrWrite_alias, word_store]
    exact Window.put_outside _ _ val
  rewrite a csr := by
    rw [csrRead_csrWrite_alias, csrRead_unchanged (store_view _ a)]
  readBack a val := by
    rw [csrRead_alias, words_csrWrite_alias, view_stored]
    rfl
  stimecmp val csr := by
    by_cases h : csr = 0x14D
    · subst h
      rfl
    · rw [if_neg h]
      exact csrRead_stimecmp h { c with csr := { c.csr with mip := c.csr.mip &&& ~~~mipStip } } val
  satp val csr := by
    by_cases h : csr = 0x180
    · subst h
      rfl
    · rw [if_neg h, ← csrRead_satp h c (if satpMode val = satpModeBare ∨ satpMode val = satpModeSv39 then val else 0)]
      exact csrRead_congr rfl rfl rfl rfl csr

/-- **The views are exact after any sequence of CSR writes**: each reads as its window on the word that the writes have
left. -/
theorem csrViews (c : Cpu) (ws : List (BitVec 12 × U64)) : ViewsExact (csrWrites c ws) ∧
    ∀ a : CsrAlias, csrRead (csrWrites c ws) a.addr = some (a.view (ws.foldl (fun w e => w.write e.1 e.2) (.of c))) := by
  refine ⟨viewsExact _, fun a => ?_⟩
  rw [csrRead_alias, words_csrWrites]

end PgLinux
