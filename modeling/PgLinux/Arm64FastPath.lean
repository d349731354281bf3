import PgLinux.Arm64Block
import PgLinux.Arm64Runs
import PgLinux.Frames
/-!
# Arm64FastPath — the inline accesses of compiled loads and stores (`jit_load`, `jit_store`)

The words look the page up in the TLB, check its tag and its host pointer, for a store its dirty flag, and make the access.
They do not read the valid flag and the permission bits, which `rv64_cpu_load` and `cpu_store` check.
-/
namespace PgLinux
namespace Arm64

open CpuLayout (offExec)
open A64 (Keeps Reg State Straight decode run)

/-! ## The emitted words -/

section Words

variable {α β : Type}

/-- The words that `m` adds to the buffer. -/
def emitted (m : Emit α) (j : CodeBuf) : List U32 := (m j).2.code_buf.drop j.code_off

theorem Lays.emitted {m : Emit α} {a : α} {vs : List U32} {j : CodeBuf} (h : Lays j.code_off [] m a vs)
    (hroom : j.code_off + vs.length ≤ j.code_capacity) : emitted m j = vs := by
  obtain ⟨-, ⟨hpre, hbuf⟩, -⟩ := h.run j j.code_buf ⟨rfl, (List.append_nil _).symm⟩ hroom
  unfold Arm64.emitted
  rw [hbuf, ← hpre, List.drop_left]

/-- Code that is laid down after code that only appends. -/
theorem Emits.then_lays {o : Nat} {m : Emit α} {f : α → Emit β} {ws vs : List U32} {a : α} {b : β} (hm : Emits m ws a)
    (hf : Lays (o + ws.length) [] (f a) b vs) : Lays o [] (m >>= f) b (ws ++ vs) := by
  refine hm.lays.bind ⟨?_, fun j pre hj hroom => ?_⟩
  · rw [List.nil_append, List.length_append]
    exact Nat.le_add_right ..
  · have hstart : j.HoldsFrom (o + ws.length) (pre ++ ws) [] := by
      refine ⟨by rw [List.length_append, hj.1], ?_⟩
      rw [List.append_nil]
      exact hj.2
    rw [List.length_append, ← Nat.add_assoc] at hroom
    obtain ⟨hb, ⟨-, hbuf⟩, hrest⟩ := hf.run j (pre ++ ws) hstart hroom
    exact ⟨hb, ⟨hj.1, by rw [hbuf, List.append_assoc]⟩, hrest⟩

theorem slowOff_le (store : Bool) (size : Nat) : slowOff store size ≤ (if store then 15 else 13) + 4 :=
  Nat.add_le_add_left (by split <;> decide) _

/-- A load takes at most 36 words. -/
theorem load_room (o : Nat) (h : Helpers) (pc : U64) (v : BitVec 12) (rd rs1 : BitVec 5) (size : Nat) (doSext : Bool) :
    (addressWords pc v rs1 ++ loadWords o h rd size doSext).length ≤ 36 := by
  have hpc := movWords_le pc
  have hfn := movWords_le h.fn_load
  have hoff := slowOff_le false size
  rw [List.length_append, addressWords_length, loadWords_length]
  simp only [Bool.false_eq_true, if_false] at hoff
  split <;> split <;> omega

/-- So does a store. -/
theorem store_room (o : Nat) (h : Helpers) (pc : U64) (v : BitVec 12) (rs1 rs2 : BitVec 5) (size : Nat) :
    (addressWords pc v rs1 ++ (loadGuest 2 rs2 ++ storeWords o h size)).length ≤ 36 := by
  have hpc := movWords_le pc
  have hfn := movWords_le h.fn_store
  have hoff := slowOff_le true size
  rw [List.length_append, addressWords_length, List.length_append, loadGuest_length, storeWords_length]
  simp only [if_true] at hoff
  omega

theorem emitted_load (h : Helpers) (insn : U32) (pc : U64) {size : Nat} {doSext : Bool}
    (hkind : loadSize (funct3 insn) = some (size, doSext)) {j : CodeBuf} (hroom : j.code_off + 36 ≤ j.code_capacity) :
    ∃ o, emitted (jitLoad h insn (rd insn) (rs1 insn) (funct3 insn) pc) j =
      addressWords pc (insn.extractLsb' 20 12) (rs1 insn) ++ loadWords o h (rd insn) size doSext := by
  have hlays : Lays j.code_off [] (emitAddress pc (immI insn) (rs1 insn) >>= fun _ => emitLoadAccess h (rd insn) size doSext)
      _ _ := (emits_address pc (insn.extractLsb' 20 12) (rs1 insn)).then_lays (lays_loadAccess h (rd insn) size doSext)
  have hlen := fun o => load_room o h pc (insn.extractLsb' 20 12) (rd insn) (rs1 insn) size doSext
  unfold jitLoad
  rw [hkind]
  exact ⟨_, hlays.emitted (Nat.le_trans (Nat.add_le_add_left (hlen _) _) hroom)⟩

theorem emitted_store (h : Helpers) (insn : U32) (pc : U64) {size : Nat} (hkind : storeSize (funct3 insn) = some size)
    {j : CodeBuf} (hroom : j.code_off + 36 ≤ j.code_capacity) :
    ∃ o, emitted (jitStore h insn (rs1 insn) (rs2 insn) (funct3 insn) pc) j =
      addressWords pc (insn.extractLsb' 25 7 ++ insn.extractLsb' 7 5) (rs1 insn) ++
        (loadGuest 2 (rs2 insn) ++ storeWords o h size) := by
  have hvalue : ∀ o, Lays o [] (emitLoadGuest 2 (rs2 insn) >>= fun _ => emitStoreAccess h size) _ _ :=
    fun _ => (emits_loadGuest 2 (rs2 insn)).then_lays (lays_storeAccess h size)
  have hlays : Lays j.code_off [] (emitAddress pc (immS insn) (rs1 insn) >>= fun _ =>
      emitLoadGuest 2 (rs2 insn) >>= fun _ => emitStoreAccess h size) _ _ :=
    (emits_address pc (insn.extractLsb' 25 7 ++ insn.extractLsb' 7 5) (rs1 insn)).then_lays (hvalue _)
  have hlen := fun o => store_room o h pc (insn.extractLsb' 25 7 ++ insn.extractLsb' 7 5) (rs1 insn) (rs2 insn) size
  unfold jitStore
  rw [hkind]
  exact ⟨_, hlays.emitted (Nat.le_trans (Nat.add_le_add_left (hlen _) _) hroom)⟩

end Words

/-! ## The runs -/

section Runs

variable {base ram va : U64} {c : Cpu} {s : State} {size : Nat}

/-- The extension of a loaded value. -/
def extension (doSext : Bool) (size : Nat) (v : U64) : U64 :=
  if doSext then
    match size with
    | 1 => (v.setWidth 8).signExtend 64
    | 2 => (v.setWidth 16).signExtend 64
    | _ => (v.setWidth 32).signExtend 64
  else v

/-- **The compiler's table of loads is the interpreter's.** -/
theorem loadKind_eq (f3 : BitVec 3) : loadKind f3 = (loadSize f3).map fun k => (k.1, extension k.2 k.1) := by
  unfold loadKind loadSize
  generalize f3.toNat = n
  match n with
  | 0 | 1 | 2 | 3 | 4 | 5 | 6 | _ + 7 => rfl

theorem loadSize_cases {f3 : BitVec 3} {size : Nat} {doSext : Bool} (h : loadSize f3 = some (size, doSext)) :
    size = 1 ∨ size = 2 ∨ size = 4 ∨ size = 8 := by
  unfold loadSize at h
  split at h <;> cases h <;> decide

theorem storeSize_cases {f3 : BitVec 3} {size : Nat} (h : storeSize f3 = some size) :
    size = 1 ∨ size = 2 ∨ size = 4 ∨ size = 8 := by
  unfold storeSize at h
  split at h <;> cases h <;> decide

theorem straight_sext (s : State) (doSext : Bool) (size : Nat) :
    Straight (sextWords doSext size 2 2) s (s.set 2 (extension doSext size (s.x 2))) := by
  have hb : Straight [sxtbWord 2 2] s (s.set 2 (((s.x 2).setWidth 8).signExtend 64)) := by
    refine A64.straight_one (i := .sbfm 0 7 2 2) (by decide +kernel) ?_
    rw [← A64.extract_setWidth]
    rfl
  have hh : Straight [sxthWord 2 2] s (s.set 2 (((s.x 2).setWidth 16).signExtend 64)) := by
    refine A64.straight_one (i := .sbfm 0 15 2 2) (by decide +kernel) ?_
    rw [← A64.extract_setWidth]
    rfl
  have hw : Straight [sxtwWord 2 2] s (s.set 2 (((s.x 2).setWidth 32).signExtend 64)) := by
    refine A64.straight_one (i := .sbfm 0 31 2 2) (by decide +kernel) ?_
    rw [← A64.extract_setWidth]
    rfl
  cases doSext with
  | false =>
    show Straight [] s (s.set 2 (s.x 2))
    rw [A64.set_same (by decide)]
    exact A64.straight_nil s
  | true =>
    rcases size with _ | _ | _ | n
    · exact hw
    · exact hb
    · exact hh
    · exact hw

theorem decode_access {size : Nat} (h : size = 1 ∨ size = 2 ∨ size = 4 ∨ size = 8) :
    decode (ldrRegWord size 2 8 9) = some (.ldrReg size 9 8 2) ∧ decode (strRegWord size 2 8 9) = some (.strReg size 9 8 2) := by
  rcases h with rfl | rfl | rfl | rfl <;> decide +kernel

theorem decode_b : ∀ m, m ≤ 4 → (decode (bWord (m + 7)) = some (.b (BitVec.ofNat 26 (m + 7))) ∧
    (BitVec.ofNat 26 (m + 7)).toInt = (m + 6 : Nat) + 1) ∧ decode (bWord (m + 6)) = some (.b (BitVec.ofNat 26 (m + 6))) ∧
    (BitVec.ofNat 26 (m + 6)).toInt = (m + 5 : Nat) + 1 := by decide +kernel

/-- A hit is to a page of RAM, and stays within it. -/
theorem Placed.hit (hp : Placed base ram c) {store : Bool} (h : inlineHits store (c.tlbEntry va) va size = true) :
    ∃ b, (c.tlbEntry va).host_base = some b ∧ (b + pageOffset va).toNat + size ≤ c.ram_size.toNat := by
  unfold inlineHits probed at h
  obtain ⟨⟨⟨-, hhost⟩, -⟩, hcross⟩ : (((_ ∧ _) ∧ _) ∧ _) := by simpa [Bool.and_eq_true] using h
  obtain ⟨b, hb⟩ := Option.isSome_iff_exists.1 hhost
  have hpage := hp.pages (tlbIndex va) b hb
  have hin : (pageOffset va).toNat + size ≤ 4096 := Nat.not_lt.1 (of_decide_eq_false hcross)
  have hlt := c.ram_size.isLt
  refine ⟨b, hb, ?_⟩
  rw [BitVec.toNat_add]
  omega

/-- Where the access of a hit goes. -/
theorem hit_address {s' : State} {b : U64} (hhost : (c.tlbEntry va).host_base = some b)
    (h8 : s'.x 8 = hostPointer ram (c.tlbEntry va).host_base) (h9 : s'.x 9 = pageOffset va) :
    s'.base 8 + s'.get 9 = ram + (b + pageOffset va) := by
  show s'.x 8 + s'.x 9 = _
  rw [h8, h9, hhost]
  exact BitVec.add_assoc ..

variable (o : Nat) (hs : Helpers)

/-- **A load that hits** leaves the bytes of RAM, extended, in the guest register. -/
theorem run_load_hit (h : Ready base ram va c s) (hp : Placed base ram c) (hsize : size = 1 ∨ size = 2 ∨ size = 4 ∨ size = 8)
    (hhit : inlineHits false (c.tlbEntry va) va size = true) (rd : BitVec 5) (doSext : Bool) :
    ∃ b s', (c.tlbEntry va).host_base = some b ∧ run 0 (loadWords o hs rd size doSext) s = .done s' ∧
      Represents base ram s'.mem (c.wr rd (extension doSext size (c.bus.mem.ram.read (b + pageOffset va) size))) := by
  have hrange : 1 ≤ size ∧ size < 16 := by omega
  obtain ⟨b, hhost, hin⟩ := hp.hit hhit
  have hm := movWords_le hs.fn_load
  obtain ⟨⟨hb, hdist⟩, -⟩ := decode_b _ hm
  let call := loadCallWords hs size (BitVec.ofNat 32 (o + (slowOff false size + movWords hs.fn_load + 4)))
  let tail := sextWords doSext size 2 2 ++ storeGuest 2 rd
  obtain ⟨s1, hkeeps, hx, hrun⟩ := run_fastPath false h hp (t := 10) (.inl rfl) hrange.1 hrange.2
    (ldrRegWord size 2 8 9) (bWord (movWords hs.fn_load + 7)) (call ++ tail)
  obtain ⟨h8, h9⟩ := hx hhit
  rw [hhit, if_pos rfl] at hrun
  let value := c.bus.mem.ram.read (b + pageOffset va) size
  have hready := h.keeps hkeeps (by decide) (by decide)
  have hload : Straight [ldrRegWord size 2 8 9] s1 (s1.set 2 value) := by
    have hread : s1.mem.read (s1.base 8 + s1.get 9) size = value := by
      rw [hit_address hhost h8 h9]
      exact hready.rep.read_ram hin
    rw [← hread]
    exact A64.straight_one (decode_access hsize).1 rfl
  have hjump : run 0 (bWord (movWords hs.fn_load + 7) :: (call ++ tail)) (s1.set 2 value) = run 0 tail (s1.set 2 value) := by
    rw [A64.run_b hb hdist]
    congr 1
    exact List.drop_left' (loadCallWords_length ..)
  have hsext := straight_sext (s1.set 2 value) doSext size
  obtain ⟨s', hstore, hrep⟩ := straight_storeGuest (s := (s1.set 2 value).set 2 (extension doSext size value)) hready.rep hp
    hready.cpu rd
  refine ⟨b, s', hhost, ?_, hrep⟩
  have hend := (hsext.append hstore) []
  rw [List.append_nil] at hend
  exact hrun.trans ((hload _).trans (hjump.trans hend))

/-- **A load that does not hit** calls the helper. -/
theorem run_load_miss (h : Ready base ram va c s) (hp : Placed base ram c) (hsize : size = 1 ∨ size = 2 ∨ size = 4 ∨ size = 8)
    (hmiss : inlineHits false (c.tlbEntry va) va size = false) (rd : BitVec 5) (doSext : Bool) :
    ∃ s', run 0 (loadWords o hs rd size doSext) s = .call 16 s' ∧ s'.x 16 = hs.fn_load ∧ s'.x 0 = base ∧ s'.x 1 = va ∧
      s'.x 2 = BitVec.ofNat 64 size ∧ Represents base ram s'.mem c := by
  have hrange : 1 ≤ size ∧ size < 16 := by omega
  let cbnz := BitVec.ofNat 32 (o + (slowOff false size + movWords hs.fn_load + 4))
  let tail := sextWords doSext size 2 2 ++ storeGuest 2 rd
  obtain ⟨s1, hkeeps, -, hrun⟩ := run_fastPath false h hp (t := 10) (.inl rfl) hrange.1 hrange.2
    (ldrRegWord size 2 8 9) (bWord (movWords hs.fn_load + 7)) (loadCallWords hs size cbnz ++ tail)
  rw [hmiss] at hrun
  have hready := h.keeps hkeeps (by decide) (by decide)
  obtain ⟨s', hcall, h16, h0, h1, h2, -, hmem⟩ := run_loadCall s1 hs hrange.2 cbnz tail
  exact ⟨s', hrun.trans hcall, h16, h0.trans hready.cpu, h1.trans hready.va, h2, hmem ▸ hready.rep⟩

/-- **A store that hits** writes the value to RAM. -/
theorem run_store_hit (h : Ready base ram va c s) (hp : Placed base ram c)
    (hsize : size = 1 ∨ size = 2 ∨ size = 4 ∨ size = 8) (hhit : inlineHits true (c.tlbEntry va) va size = true) :
    ∃ b s', (c.tlbEntry va).host_base = some b ∧ run 0 (storeWords o hs size) s = .done s' ∧
      Represents base ram s'.mem (c.writeRam (b + pageOffset va) size (s.x 2)) := by
  have hrange : 1 ≤ size ∧ size < 16 := by omega
  obtain ⟨b, hhost, hin⟩ := hp.hit hhit
  have hm := movWords_le hs.fn_store
  obtain ⟨-, hb, hdist⟩ := decode_b _ hm
  let call := storeCallWords hs size (BitVec.ofNat 32 (o + (slowOff true size + movWords hs.fn_store + 4)))
  obtain ⟨s1, hkeeps, hx, hrun⟩ := run_fastPath true h hp (t := 11) (.inr rfl) hrange.1 hrange.2
    (strRegWord size 2 8 9) (bWord (movWords hs.fn_store + 6)) call
  obtain ⟨h8, h9⟩ := hx hhit
  rw [hhit, if_pos rfl] at hrun
  have hready := h.keeps hkeeps (by decide) (by decide)
  have hstore : Straight [strRegWord size 2 8 9] s1 (s1.store (ram + (b + pageOffset va)) size (s.x 2)) := by
    have hvalue : s1.get 2 = s.x 2 := hkeeps.x 2 (by decide)
    rw [← hit_address hhost h8 h9, ← hvalue]
    exact A64.straight_one (decode_access hsize).2 rfl
  refine ⟨b, s1.store (ram + (b + pageOffset va)) size (s.x 2), hhost, ?_, hready.rep.writeRam hp hin (s.x 2)⟩
  refine hrun.trans ((hstore _).trans ?_)
  rw [A64.run_b hb hdist, List.drop_of_length_le (Nat.le_of_eq (storeCallWords_length ..))]
  rfl

/-- **A store that does not hit** calls the helper. -/
theorem run_store_miss (h : Ready base ram va c s) (hp : Placed base ram c)
    (hsize : size = 1 ∨ size = 2 ∨ size = 4 ∨ size = 8) (hmiss : inlineHits true (c.tlbEntry va) va size = false) :
    ∃ s', run 0 (storeWords o hs size) s = .call 16 s' ∧ s'.x 16 = hs.fn_store ∧ s'.x 0 = base ∧ s'.x 1 = va ∧
      s'.x 2 = BitVec.ofNat 64 size ∧ s'.x 3 = s.x 2 ∧ Represents base ram s'.mem c := by
  have hrange : 1 ≤ size ∧ size < 16 := by omega
  let cbnz := BitVec.ofNat 32 (o + (slowOff true size + movWords hs.fn_store + 4))
  obtain ⟨s1, hkeeps, -, hrun⟩ := run_fastPath true h hp (t := 11) (.inr rfl) hrange.1 hrange.2
    (strRegWord size 2 8 9) (bWord (movWords hs.fn_store + 6)) (storeCallWords hs size cbnz)
  rw [hmiss] at hrun
  have hready := h.keeps hkeeps (by decide) (by decide)
  obtain ⟨s', hcall, h16, h0, h1, h2, h3, hmem⟩ := run_storeCall s1 hs hrange.2 cbnz []
  rw [List.append_nil] at hcall
  exact ⟨s', hrun.trans hcall, h16, h0.trans hready.cpu, h1.trans hready.va, h2, h3.trans (hkeeps.x 2 (by decide)),
    hmem ▸ hready.rep⟩

end Runs

/-! ## Agreement with the C functions -/

section Agreement

variable [NetDevice] {base ram : U64} {c : Cpu}

/-- What the fast path of `rv64_cpu_load` asks beside tag, pointer and page. -/
def loadAllowed (c : Cpu) (te : TlbEntry) : Bool :=
  te.valid && readOk c (pteR te.perm) (pteX te.perm) && privOk c (pteU te.perm)

/-- What the fast path of `cpu_store` asks beside tag, pointer, page and dirty flag. -/
def storeAllowed (c : Cpu) (te : TlbEntry) : Bool := te.valid && pteW te.perm && privOk c (pteU te.perm)

omit [NetDevice] in
theorem isSome_guard {α β : Type} (b : Bool) (o : Option α) (f : α → β) :
    (if b then o.map f else none).isSome = (b && o.isSome) := by
  cases b <;> simp

omit [NetDevice] in
theorem guard_some {α β : Type} {b : Bool} {o : Option α} {f : α → β} {x : α}
    (h : (if b then o.map f else none).isSome = true) (hx : o = some x) : (if b then o.map f else none) = some (f x) := by
  rw [isSome_guard] at h
  rw [if_pos (Bool.and_eq_true_iff.1 h).1, hx]
  rfl

omit [NetDevice] in
theorem loadFast_isSome (c : Cpu) (va : U64) (size : Nat) :
    (loadFast c va size .read).isSome = (inlineHits false (c.tlbEntry va) va size && loadAllowed c (c.tlbEntry va)) := by
  have hread : ¬ AccessType.read = .exec := by decide
  unfold loadFast inlineHits probed loadAllowed TlbEntry.hits
  dsimp only
  rw [if_neg hread, isSome_guard, Bool.not_false, Bool.true_or, Bool.and_true]
  ac_rfl

omit [NetDevice] in
theorem storeFast_isSome (c : Cpu) (va : U64) (size : Nat) :
    (storeFast c va size).isSome = (inlineHits true (c.tlbEntry va) va size && storeAllowed c (c.tlbEntry va)) := by
  unfold storeFast inlineHits probed storeAllowed TlbEntry.hits
  dsimp only
  rw [isSome_guard, Bool.not_true, Bool.false_or]
  ac_rfl

/-- The end of a run of a load.  A run that made the access itself is one where `rv64_cpu_load` would have used its fast
path, and leaves what the interpreter leaves; any other has called the helper. -/
def LoadAgrees (hs : Helpers) (base ram : U64) (c : Cpu) (va pc : U64) (rd : BitVec 5) (size : Nat) (extend : U64 → U64) :
    A64.Exit → Prop
  | .done s => (loadFast c va size .read).isSome = true ∧
      ∃ v, rv64CpuLoad va size .read c = .ok v c ∧ Represents base ram s.mem (Cpu.wr { c with pc := pc } rd (extend v))
  | .call r s => s.get r = hs.fn_load ∧ s.x 0 = base ∧ s.x 1 = va ∧ s.x 2 = BitVec.ofNat 64 size ∧
      Represents base ram s.mem { c with pc := pc }
  | .stuck => False

/-- The end of a run of a store. -/
def StoreAgrees (hs : Helpers) (base ram : U64) (c : Cpu) (va pc val : U64) (size : Nat) : A64.Exit → Prop
  | .done s => (storeFast c va size).isSome = true ∧
      ∃ c', cpuStore va size val { c with pc := pc } = .ok () c' ∧ Represents base ram s.mem c'
  | .call r s => s.get r = hs.fn_store ∧ s.x 0 = base ∧ s.x 1 = va ∧ s.x 2 = BitVec.ofNat 64 size ∧ s.x 3 = val ∧
      Represents base ram s.mem { c with pc := pc }
  | .stuck => False

omit [NetDevice] in
/-- The log of stores is not among what compiled code sees. -/
theorem Represents.logStore {m : Mem} {p va val v : U64} {n size : Nat} (h : Represents base ram m (c.writeRam p n v)) :
    Represents base ram m ((PgLinux.logStore va size val c).writeRam p n v) := by
  unfold PgLinux.logStore
  split
  · exact ⟨h.x, h.pc, h.tlb, h.ram⟩
  · exact h

theorem cpuStore_hit {va p val : U64} {size : Nat} (h : storeFast c va size = some p) :
    cpuStore va size val c = .ok () ((logStore va size val c).writeRam p size val) := by
  have hlog : storeFast (logStore va size val c) va size = some p := by
    rw [← h]
    unfold logStore
    split <;> rfl
  exact storeAt_hit hlog

variable {s : State} (hs : Helpers) (insn : U32) (pc : U64)

theorem load_agrees_iff (hrep : Represents base ram s.mem c) (hp : Placed base ram c) (hcpu : s.x 19 = base) {j : CodeBuf}
    (hroom : j.code_off + 36 ≤ j.code_capacity) {size : Nat} {extend : U64 → U64}
    (hkind : loadKind (funct3 insn) = some (size, extend)) :
    let va := c.x (rs1 insn) + immI insn
    let words := emitted (jitLoad hs insn (rd insn) (rs1 insn) (funct3 insn) pc) j
    LoadAgrees hs base ram c va pc (rd insn) size extend (run 0 words s) ↔
      (inlineHits false (c.tlbEntry va) va size = true → loadAllowed c (c.tlbEntry va) = true) := by
  intro va words
  rw [loadKind_eq] at hkind
  obtain ⟨⟨size, doSext⟩, hk, he⟩ := Option.map_eq_some_iff.1 hkind
  cases he
  obtain ⟨o, hwords⟩ := emitted_load hs insn pc hk hroom
  obtain ⟨s1, haddr, hready⟩ := straight_address hrep hp hcpu pc (insn.extractLsb' 20 12) (rs1 insn)
  have hstart : run 0 words s = run 0 (loadWords o hs (rd insn) size doSext) s1 := by
    show run 0 (emitted ..) s = _
    rw [hwords]
    exact haddr _
  rw [hstart]
  cases hhit : inlineHits false (c.tlbEntry va) va size with
  | true =>
    obtain ⟨b, s', hhost, hrun, hrep'⟩ := run_load_hit o hs hready (hp.setPc pc) (loadSize_cases hk) hhit (rd insn) doSext
    have hfast := loadFast_isSome c va size
    rw [hhit, Bool.true_and] at hfast
    rw [hrun]
    constructor
    · rintro ⟨hsome, -⟩ -
      exact hfast ▸ hsome
    · intro hallowed
      have hsome := hfast.trans (hallowed rfl)
      exact ⟨hsome, _, rv64CpuLoad_hit (guard_some hsome hhost), hrep'⟩
  | false =>
    obtain ⟨s', hrun, h16, hargs⟩ := run_load_miss o hs hready (hp.setPc pc) (loadSize_cases hk) hhit (rd insn) doSext
    rw [hrun]
    exact ⟨fun _ e => absurd e Bool.false_ne_true, fun _ => ⟨h16, hargs⟩⟩

theorem store_agrees_iff (hrep : Represents base ram s.mem c) (hp : Placed base ram c) (hcpu : s.x 19 = base) {j : CodeBuf}
    (hroom : j.code_off + 36 ≤ j.code_capacity) {size : Nat} (hkind : storeSize (funct3 insn) = some size) :
    let va := c.x (rs1 insn) + immS insn
    let words := emitted (jitStore hs insn (rs1 insn) (rs2 insn) (funct3 insn) pc) j
    StoreAgrees hs base ram c va pc (c.x (rs2 insn)) size (run 0 words s) ↔
      (inlineHits true (c.tlbEntry va) va size = true → storeAllowed c (c.tlbEntry va) = true) := by
  intro va words
  obtain ⟨o, hwords⟩ := emitted_store hs insn pc hkind hroom
  obtain ⟨s1, haddr, hready⟩ :=
    straight_address hrep hp hcpu pc (insn.extractLsb' 25 7 ++ insn.extractLsb' 7 5) (rs1 insn)
  have hvalue := straight_loadGuest (r := 2) hready.rep hp.zero hready.cpu (by decide) (rs2 insn)
  have hkeeps : Keeps [2] s1 (s1.set 2 (c.x (rs2 insn))) := A64.keeps_set (by decide) (by decide)
  have hready' := hready.keeps hkeeps (by decide) (by decide)
  have hstart : run 0 words s = run 0 (storeWords o hs size) (s1.set 2 (c.x (rs2 insn))) := by
    show run 0 (emitted ..) s = _
    rw [hwords]
    exact (haddr _).trans (hvalue _)
  rw [hstart]
  cases hhit : inlineHits true (c.tlbEntry va) va size with
  | true =>
    obtain ⟨b, s', hhost, hrun, hrep'⟩ := run_store_hit o hs hready' (hp.setPc pc) (storeSize_cases hkind) hhit
    have hfast := storeFast_isSome c va size
    rw [hhit, Bool.true_and] at hfast
    rw [hrun]
    constructor
    · rintro ⟨hsome, -⟩ -
      exact hfast ▸ hsome
    · intro hallowed
      have hsome := hfast.trans (hallowed rfl)
      have hstore : storeFast { c with pc := pc } va size = some (b + pageOffset va) := guard_some hsome hhost
      exact ⟨hsome, _, cpuStore_hit hstore, hrep'.logStore⟩
  | false =>
    obtain ⟨s', hrun, h16, hargs⟩ := run_store_miss o hs hready' (hp.setPc pc) (storeSize_cases hkind) hhit
    rw [hrun]
    exact ⟨fun _ e => absurd e Bool.false_ne_true, fun _ => ⟨h16, hargs⟩⟩

/-- **When an inline access is one the C function would have made**: the entry that the inline code trusts is valid and
allows the access. -/
theorem fastPath_agrees_iff (hrep : Represents base ram s.mem c) (hp : Placed base ram c) (hcpu : s.x 19 = base)
    {j : CodeBuf} (hroom : j.code_off + 36 ≤ j.code_capacity) :
    (∀ size extend, loadKind (funct3 insn) = some (size, extend) →
      let va := c.x (rs1 insn) + immI insn
      let words := emitted (jitLoad hs insn (rd insn) (rs1 insn) (funct3 insn) pc) j
      (LoadAgrees hs base ram c va pc (rd insn) size extend (run 0 words s) ↔
        (inlineHits false (c.tlbEntry va) va size = true → loadAllowed c (c.tlbEntry va) = true))) ∧
    (∀ size, storeSize (funct3 insn) = some size →
      let va := c.x (rs1 insn) + immS insn
      let words := emitted (jitStore hs insn (rs1 insn) (rs2 insn) (funct3 insn) pc) j
      (StoreAgrees hs base ram c va pc (c.x (rs2 insn)) size (run 0 words s) ↔
        (inlineHits true (c.tlbEntry va) va size = true → storeAllowed c (c.tlbEntry va) = true))) :=
  ⟨fun _ _ hkind => load_agrees_iff hs insn pc hrep hp hcpu hroom hkind,
    fun _ hkind => store_agrees_iff hs insn pc hrep hp hcpu hroom hkind⟩

end Agreement

/-! ## A page of the supervisor -/

section Instances

local instance fastNet : NetDevice := NetDevice.silent

def cpuBase : U64 := 0x10000
def ramStart : U64 := 0x1000000

/-- A readable and writable page of the supervisor, at address 0. -/
def kernelPage : TlbEntry := ⟨0, 0x80000, some 0, 0x06, 0, true, true⟩

def kernelPageCpu (priv : U8) : Cpu :=
  { rv64Init (fun _ => 0) 0x1000 with
    pc := 0
    priv := priv
    csr := { Csr.zero with satp := satpModeSv39 <<< 60 ||| 0x80000 }
    tlb := setAt Tlb.zero 0 kernelPage }

/-- The CPU in memory: all is zero but the frame, the host pointer and the flags of the entry. -/
def kernelPageMem : Mem :=
  ((Mem.write (fun _ => 0) (byteAt cpuBase 896) 8 0x80000).write (byteAt cpuBase 904) 8 ramStart).write (byteAt cpuBase 912) 4
    0x01010006

def kernelPageState : State := ⟨fun r => if r = 19 then cpuBase else 0, 0, false, false, false, false, kernelPageMem⟩

theorem kernelPage_placed (priv : U8) : Placed cpuBase ramStart (kernelPageCpu priv) where
  apart n p hn hlt := by
    have hoff : offExec = 1659976 := by decide +kernel
    have hsize : p < 0x1000 := hlt
    unfold byteAt cpuBase ramStart
    bv_omega
  nonNull p hlt := by
    have hsize : p < 0x1000 := hlt
    unfold ramStart
    bv_omega
  zero := rfl
  pages i b hb := by
    by_cases hi : i = 0
    · subst hi
      cases hb
      show (0 : U64).toNat + 4096 ≤ (0x1000 : U64).toNat
      decide
    · have hzero : (kernelPageCpu priv).tlb i = .zero := setAt_ne _ _ hi
      rw [hzero] at hb
      cases hb

theorem kernelPageMem_zero {k : Nat} (h : k < 896 ∨ 916 ≤ k) (hk : k < 2 ^ 32) : kernelPageMem (byteAt cpuBase k) = 0 := by
  unfold kernelPageMem
  rw [write_byteAt _ (by omega) hk (by omega), write_byteAt _ (by omega) hk (by omega),
    write_byteAt _ (by omega) hk (by omega)]

theorem kernelPageMem_read {a n : Nat} (h : a + n ≤ 896 ∨ 916 ≤ a) (hn : a + n < 2 ^ 32) :
    kernelPageMem.read (byteAt cpuBase a) n = Mem.read (fun _ => 0) (byteAt cpuBase a) n :=
  read_byteAt fun k _ _ => kernelPageMem_zero (by omega) (by omega)

theorem kernelPage_represents (priv : U8) : Represents cpuBase ramStart kernelPageMem (kernelPageCpu priv) where
  x i := by
    have hoff := regOff_eq i
    rw [kernelPageMem_read (by omega) (by omega), Mem.read_zero]
    rfl
  pc := by
    have hoff := offsetOf_pc
    rw [kernelPageMem_read (by omega) (by omega), Mem.read_zero]
    rfl
  tlb i := by
    by_cases hi : i = 0
    · subst hi
      show EntryAt ramStart kernelPageMem (byteAt cpuBase (entryOff 0)) kernelPage
      constructor <;> decide +kernel
    · have hzero : (kernelPageCpu priv).tlb i = .zero := setAt_ne _ _ hi
      have hpos : 1 ≤ i.toNat := Nat.pos_of_ne_zero fun e => hi (BitVec.eq_of_toNat_eq e)
      have hoff := entryOff_eq i
      have hempty : EntryAt ramStart (fun _ => 0) (byteAt cpuBase (entryOff i)) .zero :=
        ⟨Mem.read_zero .., Mem.read_zero .., Mem.read_zero .., rfl, rfl, rfl, rfl⟩
      rw [hzero]
      refine hempty.same fun k hk => ?_
      rw [byteAt_byteAt]
      exact kernelPageMem_zero (by omega) (by omega)
  ram p hlt := by
    have hp := kernelPage_placed priv
    have hle := le_offExec
    unfold kernelPageMem
    rw [hp.write_ram _ (by omega) hlt, hp.write_ram _ (by omega) hlt, hp.write_ram _ (by omega) hlt]
    rfl

/-- `ld x1, 0(x0)` and `sd x1, 0(x0)`. -/
def loadInsn : U32 := 0x00003083
def storeInsn : U32 := 0x00103023

/-- Whether the load agrees, at a privilege. -/
def KernelLoadAgrees (priv : U8) : Prop :=
  let c := kernelPageCpu priv
  LoadAgrees highHelpers cpuBase ramStart c (c.x (rs1 loadInsn) + immI loadInsn) 0 (rd loadInsn) 8 id
    (run 0 (emitted (jitLoad highHelpers loadInsn (rd loadInsn) (rs1 loadInsn) (funct3 loadInsn) 0) emptyBuf) kernelPageState)

def KernelStoreAgrees (priv : U8) : Prop :=
  let c := kernelPageCpu priv
  StoreAgrees highHelpers cpuBase ramStart c (c.x (rs1 storeInsn) + immS storeInsn) 0 (c.x (rs2 storeInsn)) 8
    (run 0 (emitted (jitStore highHelpers storeInsn (rs1 storeInsn) (rs2 storeInsn) (funct3 storeInsn) 0) emptyBuf)
      kernelPageState)

theorem emptyBuf_room : emptyBuf.code_off + 36 ≤ emptyBuf.code_capacity := by decide

theorem loadInsn_kind : loadKind (funct3 loadInsn) = some (8, id) := rfl

theorem storeInsn_size : storeSize (funct3 storeInsn) = some 8 := rfl

/-- The supervisor may use its page. -/
theorem fastPath_agrees_supervisor : KernelLoadAgrees privS ∧ KernelStoreAgrees privS :=
  ⟨((fastPath_agrees_iff (s := kernelPageState) highHelpers loadInsn 0 (kernelPage_represents privS)
      (kernelPage_placed privS) rfl emptyBuf_room).1 8 id loadInsn_kind).2 fun _ => by decide,
    ((fastPath_agrees_iff (s := kernelPageState) highHelpers storeInsn 0 (kernelPage_represents privS)
      (kernelPage_placed privS) rfl emptyBuf_room).2 8 storeInsn_size).2 fun _ => by decide⟩

/-- **User code reads and writes the page of the supervisor.** -/
theorem fastPath_reaches_supervisor : ¬ KernelLoadAgrees privU ∧ ¬ KernelStoreAgrees privU := by
  have hload := load_agrees_iff (s := kernelPageState) highHelpers loadInsn 0 (kernelPage_represents privU)
    (kernelPage_placed privU) rfl emptyBuf_room loadInsn_kind
  have hstore := store_agrees_iff (s := kernelPageState) highHelpers storeInsn 0 (kernelPage_represents privU)
    (kernelPage_placed privU) rfl emptyBuf_room storeInsn_size
  dsimp only at hload hstore
  unfold KernelLoadAgrees KernelStoreAgrees
  dsimp only
  rw [hload, hstore]
  exact ⟨by decide, by decide⟩

end Instances

end Arm64
end PgLinux
