import PgLinux.Arm64Agreement
import PgLinux.Arm64Calls
/-!
# Arm64Returns — what a compiled block returns (`rv64_jit.c`)

A block saves x19, x20, x21 and x30 in its frame, pins the CPU in x19 and counts its instructions in w21.  The first eight
bytes of the frame are also the place to which `rv64_jit_load` writes, so that x19 comes back as what a helper loaded last.
-/
namespace PgLinux
namespace Arm64

open CpuLayout (cpuFields offExec)
open A64 (Finishes Goes Keeps Lands Reg State decode decodeOp)

/-! ## The meaning of a block -/

/-- A block on its way: the CPU, what stands where x19 was saved, and the instructions counted. -/
structure Run where
  cpu : Cpu
  slot : U64
  count : Nat

def Run.counted (r : Run) : Run := { r with count := r.count + 1 }

def Run.setPc (r : Run) (pc : U64) : Run := { r with cpu := { r.cpu with pc := pc } }

section Meaning

variable [NetDevice]

def armLoad (t : GuestInsn) (size : Nat) (doSext : Bool) (r : Run) : Except Run Run :=
  let c := { r.cpu with pc := t.pc }
  let va := c.x (rs1 t.insn) + immI t.insn
  if inlineHits false (c.tlbEntry va) va size then
    .ok { r with cpu := c.wr (rd t.insn) (extension doSext size (c.bus.mem.ram.read (hitAt c va) size)) }
  else
    match rv64CpuLoad va size .read c with
    | .ok v c => .ok { r with cpu := c.wr (rd t.insn) (extension doSext size v), slot := v }
    | .error _ c => .error { r with cpu := c }

def armStore (t : GuestInsn) (size : Nat) (r : Run) : Except Run Run :=
  let c := { r.cpu with pc := t.pc }
  let va := c.x (rs1 t.insn) + immS t.insn
  let v := c.x (rs2 t.insn)
  if inlineHits true (c.tlbEntry va) va size then .ok { r with cpu := c.writeRam (hitAt c va) size v }
  else
    match cpuStore va size v c with
    | .ok _ c => .ok { r with cpu := c }
    | .error _ c => .error { r with cpu := c }

/-- Where the inline test fails, the load is that of `rv64_jit_load`. -/
theorem armLoad_miss (t : GuestInsn) (size : Nat) (doSext : Bool) (r : Run) :
    let c := { r.cpu with pc := t.pc }
    let va := c.x (rs1 t.insn) + immI t.insn
    inlineHits false (c.tlbEntry va) va size = false → armLoad t size doSext r = match rv64CpuLoad va size .read c with
      | .ok v c => .ok { r with cpu := c.wr (rd t.insn) (extension doSext size v), slot := v }
      | .error _ c => .error { r with cpu := c } :=
  fun hhit => if_neg (by rw [hhit]; exact Bool.false_ne_true)

/-- Where the inline test fails, the store is that of `rv64_jit_store`. -/
theorem armStore_miss (t : GuestInsn) (size : Nat) (r : Run) :
    let c := { r.cpu with pc := t.pc }
    let va := c.x (rs1 t.insn) + immS t.insn
    inlineHits true (c.tlbEntry va) va size = false →
      armStore t size r = match cpuStore va size (c.x (rs2 t.insn)) c with
        | .ok _ c => .ok { r with cpu := c }
        | .error _ c => .error { r with cpu := c } :=
  fun hhit => if_neg (by rw [hhit]; exact Bool.false_ne_true)

theorem armLoad_answered {t : GuestInsn} {size : Nat} {doSext : Bool} {r : Run} {va v : U64} {d : Cpu}
    (hva : r.cpu.x (rs1 t.insn) + immI t.insn = va) (hmiss : inlineHits false (r.cpu.tlbEntry va) va size = false)
    (hload : rv64CpuLoad va size .read { r.cpu with pc := t.pc } = .ok v d) :
    armLoad t size doSext r = .ok { r with cpu := d.wr (rd t.insn) (extension doSext size v), slot := v } := by
  subst hva
  rw [armLoad_miss t size doSext r hmiss]
  exact (by rw [hload])

theorem armStore_answered {t : GuestInsn} {size : Nat} {r : Run} {va v : U64} {d : Cpu}
    (hva : r.cpu.x (rs1 t.insn) + immS t.insn = va) (hv : r.cpu.x (rs2 t.insn) = v)
    (hmiss : inlineHits true (r.cpu.tlbEntry va) va size = false)
    (hstore : cpuStore va size v { r.cpu with pc := t.pc } = .ok () d) : armStore t size r = .ok { r with cpu := d } := by
  subst hva hv
  rw [armStore_miss t size r hmiss]
  exact (by rw [hstore])

/-- An instruction as it is compiled; an error is an exit. -/
def armInsn (t : GuestInsn) (r : Run) : Except Run Run :=
  match (opcode t.insn).toNat with
  | 0x03 =>
    match loadSize (funct3 t.insn) with
    | none => .ok r
    | some (size, doSext) => armLoad t size doSext r
  | 0x23 =>
    match storeSize (funct3 t.insn) with
    | none => .ok r
    | some size => armStore t size r
  | _ => .ok { r with cpu := armPlain t r.cpu }

def armRun : List GuestInsn → Run → Except Run Run
  | [], r => .ok r
  | t :: ts, r =>
    match armInsn t r with
    | .ok r => armRun ts r.counted
    | .error r => .error r

/-- What stands between the instructions and the epilogue; `c` is the CPU that the compiler ended with. -/
def armEnd (c : Cpu) (stop : Stop) (r : Run) : Run :=
  match stop with
  | .ahead pc => r.setPc pc
  | .cannot t => r.setPc t.pc
  | .jumped => r
  | .branch pc =>
    match (jitFetchInsn pc c).1 with
    | none => r
    | some (raw, compressed) =>
      { r.counted with cpu := armBranch ⟨pc, expand raw compressed, insnBytes compressed⟩ r.cpu }

/-- A run of the block that was compiled at `pc` for the CPU `c`. -/
def armBlock (pc : U64) (c : Cpu) (r : Run) : Run :=
  let b := scan jitMaxBlockInsns pc c
  match armRun b.1 r with
  | .ok r => armEnd b.2.2 b.2.1 r
  | .error r => r

/-- Wherever the run is, the pointers of the TLB are to pages of RAM. -/
def PagesKept (ts : List GuestInsn) (r : Run) : Prop := ∀ k r', armRun (ts.take k) r = .ok r' → PagesIn r'.cpu

theorem PagesKept.start {ts : List GuestInsn} {r : Run} (h : PagesKept ts r) : PagesIn r.cpu := h 0 r rfl

theorem pagesKept_nil {r : Run} (h : PagesIn r.cpu) : PagesKept [] r := fun k r' hrun => by
  rw [List.take_nil] at hrun
  cases hrun
  exact h

theorem PagesKept.cons {t : GuestInsn} {ts : List GuestInsn} {r r' : Run} (h : PagesIn r.cpu) (hr : armInsn t r = .ok r')
    (hts : PagesKept ts r'.counted) : PagesKept (t :: ts) r
  | 0, _, rfl => h
  | k + 1, r'', hrun => by
    rw [List.take_succ_cons, armRun, hr] at hrun
    exact hts k r'' hrun

theorem PagesKept.next {t : GuestInsn} {ts : List GuestInsn} {r r' : Run} (h : PagesKept (t :: ts) r)
    (hr : armInsn t r = .ok r') : PagesKept ts r'.counted := by
  intro k r'' hrun
  refine h (k + 1) r'' ?_
  rw [List.take_succ_cons, armRun, hr]
  exact hrun

/-- What the instructions of a block leave alone. -/
structure Framed (c c' : Cpu) : Prop where
  ram_size : c'.ram_size = c.ram_size
  zero : c.x 0 = 0 → c'.x 0 = 0

omit [NetDevice] in
theorem framed_access {pc : U64} {c c' : Cpu} (h : AccessFrame { c with pc := pc } c') : Framed c c' := by
  obtain ⟨tlb, bus, dbg, rfl⟩ := h
  exact ⟨rfl, id⟩

omit [NetDevice] in
theorem framed_plain (t : GuestInsn) (c : Cpu) : Framed c (armPlain t c) := by
  unfold armPlain
  split
  · exact ⟨rfl, id⟩
  all_goals exact ⟨rfl, fun _ => rfl⟩

/-- The run that an instruction leaves, by whether it goes on. -/
def finalRun : Except Run Run → Run
  | .ok r => r
  | .error r => r

theorem framed_insn (t : GuestInsn) (r : Run) : Framed r.cpu (finalRun (armInsn t r)).cpu ∧
    (finalRun (armInsn t r)).count = r.count := by
  unfold armInsn
  split
  · split
    · exact ⟨⟨rfl, id⟩, rfl⟩
    · unfold armLoad
      dsimp only
      split
      · exact ⟨⟨rfl, fun _ => rfl⟩, rfl⟩
      · next size _ _ _ =>
        have hframe := rv64CpuLoad_frame (r.cpu.x (rs1 t.insn) + immI t.insn) size .read { r.cpu with pc := t.pc }
        split
        next v c' hrun =>
          rw [hrun] at hframe
          exact ⟨⟨(framed_access hframe).ram_size, fun _ => rfl⟩, rfl⟩
        next exc c' hrun =>
          rw [hrun] at hframe
          exact ⟨framed_access hframe, rfl⟩
  · split
    · exact ⟨⟨rfl, id⟩, rfl⟩
    · unfold armStore
      dsimp only
      split
      · exact ⟨⟨rfl, id⟩, rfl⟩
      · next size _ _ =>
        have hframe := cpuStore_frame (r.cpu.x (rs1 t.insn) + immS t.insn) size (r.cpu.x (rs2 t.insn))
          { r.cpu with pc := t.pc }
        split
        next v c' hrun =>
          rw [hrun] at hframe
          exact ⟨framed_access hframe, rfl⟩
        next exc c' hrun =>
          rw [hrun] at hframe
          exact ⟨framed_access hframe, rfl⟩
  · exact ⟨framed_plain t r.cpu, rfl⟩

end Meaning

/-! ## Distances -/

theorem insnWords_le (h : Helpers) (t : GuestInsn) : insnWords h t ≤ 36 := by
  have hmov := movWords_le
  unfold insnWords
  split
  · unfold opWords
    repeat' split
    all_goals decide
  · unfold opImmWords
    have := hmov (immI t.insn)
    repeat' split
    all_goals omega
  · unfold op32Words
    repeat' split
    all_goals decide
  · unfold opImm32Words
    repeat' split
    all_goals decide
  · unfold constWords
    have := hmov (immU t.insn)
    split <;> omega
  · unfold constWords
    have := hmov (t.pc + immU t.insn)
    split <;> omega
  · have := hmov t.pc
    have := hmov h.fn_load
    unfold loadInsnWords pageCheckWords
    repeat' split
    all_goals omega
  · have := hmov t.pc
    have := hmov h.fn_store
    unfold storeInsnWords pageCheckWords
    repeat' split
    all_goals omega
  · have := hmov (t.pc + t.size)
    have := hmov (t.pc + immJ t.insn)
    unfold jumpWords constWords
    split <;> omega
  · have := hmov (t.pc + t.size)
    unfold jalrWords constWords
    split <;> omega
  · decide

theorem decode_cbnz {dist : Nat} (hdist : dist < 2 ^ 18) :
    decodeOp (cbnzWord dist) = some (.cbnzW (BitVec.ofNat 19 dist) 0) ∧ (BitVec.ofNat 19 dist).toInt = dist := by
  have hmask : BitVec.ofNat 32 dist &&& 0x7FFFF = (BitVec.ofNat 19 dist).setWidth 32 := by
    apply BitVec.eq_of_toNat_eq
    have hand : (BitVec.ofNat 32 dist &&& 0x7FFFF).toNat = dist % 2 ^ 32 % 2 ^ 19 := by
      rw [BitVec.toNat_and, BitVec.toNat_ofNat]
      exact Nat.and_two_pow_sub_one_eq_mod _ 19
    rw [hand, BitVec.toNat_setWidth, BitVec.toNat_ofNat]
    omega
  refine ⟨A64.decode_cbnzW _ ?_, ?_⟩
  · unfold cbnzWord
    rw [hmask]
    exact BitVec.or_zero.symm
  · rw [BitVec.toInt_eq_toNat_bmod, BitVec.toNat_ofNat, Nat.mod_eq_of_lt (by omega)]
    exact Int.bmod_eq_of_le (by omega) (by omega)

/-! ## Instructions -/

/-- A block is between its prologue and its epilogue; `s0` is the state behind the prologue. -/
structure Inside (e : Place) (s0 : State) (r : Run) (s : State) : Prop where
  cpu : s.x 19 = e.base
  sp : s.sp = e.sp
  count : s.x 21 = BitVec.ofNat 64 r.count
  x : ∀ q : Reg, 20 ≤ q.toNat ∧ q.toNat < 30 → q ≠ 21 → s.x q = s0.x q
  bytes : ∀ a, Guarded e a → ¬ DwordAt e.sp a → s.mem a = s0.mem a
  slot : s.mem.read e.sp 8 = r.slot
  rep : Represents e.base e.ram s.mem r.cpu

theorem Inside.changed {e : Place} {s0 s s' : State} {r r' : Run} (h : Inside e s0 r s) (hc : Changed e s s')
    (hslot : s'.mem.read e.sp 8 = r'.slot) (hcount : r'.count = r.count) (hrep : Represents e.base e.ram s'.mem r'.cpu) :
    Inside e s0 r' s' where
  cpu := (hc.kept.x 19 (by decide)).trans h.cpu
  sp := hc.kept.sp.trans h.sp
  count := by
    rw [hcount]
    exact (hc.kept.x 21 (by decide)).trans h.count
  x q hq hne := (hc.kept.x q ⟨by omega, hq.2⟩).trans (h.x q hq hne)
  bytes a ha hno := (hc.bytes a ha hno).trans (h.bytes a ha hno)
  slot := hslot
  rep := hrep

/-- Where nothing of the block's own changes, the slot stays. -/
theorem Inside.steady {e : Place} {s0 s s' : State} {r : Run} (h : Inside e s0 r s) (hs : Steady e s s') {c : Cpu}
    (hrep : Represents e.base e.ram s'.mem c) : Inside e s0 { r with cpu := c } s' :=
  h.changed hs.changed (hs.slot.trans h.slot) rfl hrep

section Instructions

variable [NetDevice] {h : Helpers} {e : Place} {s0 s : State} {r : Run} {t : GuestInsn} {Q : Cpu → U64 → State → Prop}
  {rest : List U32} {d : Nat}

/-- What an instruction's code needs for what comes behind it, and for the code at its exit. -/
structure Goals (h : Helpers) (e : Place) (s0 : State) (Q : Cpu → U64 → State → Prop) (rest : List U32) (d : Nat)
    (out : Except Run Run) : Prop where
  next : ∀ r s, out = .ok r → Inside e s0 r s → Finishes (HelperCall h e) Q (hidden r.cpu) rest s
  exit : ∀ r s, out = .error r → Inside e s0 r s → Finishes (HelperCall h e) Q (hidden r.cpu) (rest.drop d) s

variable (hfn : h.fn_load ≠ h.fn_store)
include hfn

theorem finishes_load (hop : opcode t.insn = 0x03) {size : Nat} {doSext : Bool}
    (hkind : loadSize (funct3 t.insn) = some (size, doSext)) (hin : Inside e s0 r s) (hsep : Separate e r.cpu.ram_size)
    (hp : Placed e.base e.ram r.cpu) (hpages : ∀ r', armLoad t size doSext r = .ok r' → PagesIn r'.cpu)
    (hdist : (backCode doSext size (rd t.insn)).length + d + 1 < 2 ^ 18)
    (hgoals : Goals h e s0 Q rest d (armLoad t size doSext r)) :
    Finishes (HelperCall h e) Q (hidden r.cpu)
      (insnCode h t (cbnzWord ((backCode doSext size (rd t.insn)).length + d + 1)) ++ rest) s := by
  obtain ⟨hdecode, hint⟩ := decode_cbnz hdist
  generalize cbnzWord ((backCode doSext size (rd t.insn)).length + d + 1) = hole at hdecode
  let c : Cpu := { r.cpu with pc := t.pc }
  let va := r.cpu.x (rs1 t.insn) + immI t.insn
  have hp' : Placed e.base e.ram c := hp.setPc t.pc
  have hsizes := loadSize_cases hkind
  obtain ⟨s1, haddr, hat⟩ : ∃ s1, Goes _ s s1 ∧ AtAccess e va c s s1 :=
    goes_address hsep hp hin.cpu hin.rep t.pc (t.insn.extractLsb' 20 12) (rs1 t.insn)
  rw [(insnCode_load hop hkind).2, List.append_assoc]
  refine Finishes.goes ?_ haddr
  cases hhit : inlineHits false (c.tlbEntry va) va size with
  | true =>
    let r' : Run := { r with cpu := c.wr (rd t.insn) (extension doSext size (c.bus.mem.ram.read (hitAt c va) size)) }
    have hout : armLoad t size doSext r = .ok r' := if_pos hhit
    obtain ⟨s', hgo, hsteady, hrep⟩ := goes_loadHit (c := c) hsep hp' hat hsizes hhit h (rd t.insn) doSext hole
    exact Finishes.goes (hgoals.next r' s' hout (hin.steady hsteady hrep)) hgo
  | false =>
    have hout := armLoad_miss t size doSext r hhit
    refine finishes_loadMiss (c := c) hsep hp' hat (hat.steady.kept.sp.trans hin.sp) hsizes hhit hfn hdecode
      (by rw [hint]; push_cast; rfl) (fun v c' hrun => ?_) (fun v c' s' hrun hchanged hslot hrep => ?_)
      fun exc c' s' hrun hsteady hrep => ?_
    · rw [hrun] at hout
      exact hpages _ hout
    · rw [hrun] at hout
      exact hgoals.next _ s' hout (hin.changed hchanged hslot rfl hrep)
    · rw [hrun] at hout
      exact hgoals.exit _ s' hout (hin.steady hsteady hrep)

theorem finishes_store (hop : opcode t.insn = 0x23) {size : Nat} (hkind : storeSize (funct3 t.insn) = some size)
    (hin : Inside e s0 r s) (hsep : Separate e r.cpu.ram_size) (hp : Placed e.base e.ram r.cpu) (hdist : d + 1 < 2 ^ 18)
    (hgoals : Goals h e s0 Q rest d (armStore t size r)) :
    Finishes (HelperCall h e) Q (hidden r.cpu) (insnCode h t (cbnzWord (d + 1)) ++ rest) s := by
  obtain ⟨hdecode, hint⟩ := decode_cbnz hdist
  generalize cbnzWord (d + 1) = hole at hdecode
  let c : Cpu := { r.cpu with pc := t.pc }
  let va := r.cpu.x (rs1 t.insn) + immS t.insn
  let v := r.cpu.x (rs2 t.insn)
  have hp' : Placed e.base e.ram c := hp.setPc t.pc
  have hsizes := storeSize_cases hkind
  obtain ⟨s1, haddr, hat1⟩ : ∃ s1, Goes _ s s1 ∧ AtAccess e va c s s1 :=
    goes_address hsep hp hin.cpu hin.rep t.pc (t.insn.extractLsb' 25 7 ++ t.insn.extractLsb' 7 5) (rs1 t.insn)
  have hvalue : Goes (loadGuest 2 (rs2 t.insn)) s1 (s1.set 2 v) :=
    goes_loadGuest (r := 2) hat1.ready.rep hp.zero hat1.ready.cpu (.inr (.inr rfl)) (rs2 t.insn)
  have hset : ∀ v : U64, A64.Keeps [2] s1 (s1.set 2 v) := fun v => A64.keeps_set (by decide) (by decide)
  have hat : AtAccess e va c s (s1.set 2 v) :=
    hat1.keeps (hset _) (by decide) (by decide)
  rw [(insnCode_store hop hkind).2, List.append_assoc, List.append_assoc]
  refine Finishes.goes (Finishes.goes ?_ hvalue) haddr
  cases hhit : inlineHits true (c.tlbEntry va) va size with
  | true =>
    let r' : Run := { r with cpu := c.writeRam (hitAt c va) size v }
    have hout : armStore t size r = .ok r' := if_pos hhit
    obtain ⟨s', hgo, hsteady, hrep⟩ := goes_storeHit (c := c) hsep hp' hat hsizes hhit h hole
    have hfin := hgoals.next r' s' hout (hin.steady hsteady hrep)
    rw [show hidden r'.cpu = hidden c from hidden_writeRam (hitAt_range hp' hhit).2 v] at hfin
    exact hfin.goes hgo
  | false =>
    have hout := armStore_miss t size r hhit
    refine finishes_storeMiss (c := c) hsep hp' hat hsizes hhit hfn hdecode (by rw [hint]; push_cast; rfl)
      (fun c' s' (hrun : cpuStore va size v c = _) hsteady hrep => ?_)
      fun exc c' s' (hrun : cpuStore va size v c = _) hsteady hrep => ?_
    · rw [hrun] at hout
      exact hgoals.next _ s' hout (hin.steady hsteady hrep)
    · rw [hrun] at hout
      exact hgoals.exit _ s' hout (hin.steady hsteady hrep)

/-- **The code of an instruction does what `armInsn` says**, and leaves for the epilogue where that fails. -/
theorem finishes_insn (hv : verdict t.insn = .compiled) (hin : Inside e s0 r s) (hsep : Separate e r.cpu.ram_size)
    (hp : Placed e.base e.ram r.cpu) (hpages : ∀ r', armInsn t r = .ok r' → PagesIn r'.cpu) (hd : d + 37 < 2 ^ 18)
    (hgoals : Goals h e s0 Q rest d (armInsn t r)) :
    Finishes (HelperCall h e) Q (hidden r.cpu)
      (insnCode h t (cbnzWord (insnWords h t - (exitOf h t).getD 0 + d)) ++ rest) s := by
  have hlen : ∀ hole, (insnCode h t hole).length = insnWords h t := insnCode_length hv
  have hle := insnWords_le h t
  by_cases hload : opcode t.insn = 0x03
  · have hopn : (opcode t.insn).toNat = 0x03 := by rw [hload]; rfl
    cases hkind : loadSize (funct3 t.insn) with
    | none =>
      unfold verdict at hv
      rw [hload, hkind] at hv
      cases hv
    | some kind =>
      obtain ⟨size, doSext⟩ := kind
      have hinsn : armInsn t r = armLoad t size doSext r := by
        unfold armInsn
        simp only [hopn, hkind]
      rw [hinsn] at hpages hgoals
      obtain ⟨hexit, hcode⟩ := insnCode_load (h := h) hload hkind
      have hwords := hlen 0
      rw [hcode, List.length_append, addressWords_length, loadCode_length] at hwords
      have hback : (backCode doSext size (rd t.insn)).length =
          1 + (if doSext then 1 else 0) + if rd t.insn = 0 then 0 else 1 := by
        unfold backCode sextWords
        rw [List.length_cons, List.length_append, storeGuest_length]
        cases doSext <;> simp only [if_true, if_false, Bool.false_eq_true, List.length_cons, List.length_nil] <;> omega
      have hdist : insnWords h t - (exitOf h t).getD 0 + d = (backCode doSext size (rd t.insn)).length + d + 1 := by
        rw [hexit, Option.getD_some, hback, ← hwords]
        omega
      rw [hdist]
      exact finishes_load hfn hload hkind hin hsep hp hpages (by omega) hgoals
  · by_cases hstore : opcode t.insn = 0x23
    · have hopn : (opcode t.insn).toNat = 0x23 := by rw [hstore]; rfl
      cases hkind : storeSize (funct3 t.insn) with
      | none =>
        unfold verdict at hv
        rw [hstore, hkind] at hv
        cases hv
      | some size =>
        have hinsn : armInsn t r = armStore t size r := by
          unfold armInsn
          simp only [hopn, hkind]
        rw [hinsn] at hgoals
        obtain ⟨hexit, hcode⟩ := insnCode_store (h := h) hstore hkind
        have hwords := hlen 0
        rw [hcode, List.length_append, List.length_append, addressWords_length, loadGuest_length, storeCode_length] at hwords
        have hdist : insnWords h t - (exitOf h t).getD 0 + d = d + 1 := by
          rw [hexit, Option.getD_some, ← hwords]
          omega
        rw [hdist]
        exact finishes_store hfn hstore hkind hin hsep hp (by omega) hgoals
    · have hl : (opcode t.insn).toNat ≠ 0x03 := fun e => hload (BitVec.eq_of_toNat_eq e)
      have hs : (opcode t.insn).toNat ≠ 0x23 := fun e => hstore (BitVec.eq_of_toNat_eq e)
      have hinsn : armInsn t r = .ok { r with cpu := armPlain t r.cpu } := by
        unfold armInsn
        split
        · next hop => exact absurd hop hl
        · next hop => exact absurd hop hs
        · rfl
      obtain ⟨vs, hemit, hdoes⟩ := compiles_plain h (Compile.start t.pc) t.size hv hload hstore
      have hcode : plainCode h t = vs := plainCode_eq hemit
      obtain ⟨s', hgo, hsteady, hrep⟩ := hdoes e r.cpu hsep hp s hin.cpu hin.rep
      rw [(insnCode_plain hload hstore _).1, hcode]
      have hfin := hgoals.next _ s' hinsn (hin.steady hsteady hrep)
      rw [show hidden (armPlain t r.cpu) = hidden r.cpu from hidden_plain t r.cpu] at hfin
      exact hfin.goes hgo

end Instructions

/-! ## The instructions of a block -/

/-- **The counter goes up.** -/
theorem Inside.counted {e : Place} {s0 s : State} {r : Run} (h : Inside e s0 r s) (hcount : r.count + 1 < 2 ^ 32) :
    ∃ s', Goes [countWord] s s' ∧ Inside e s0 r.counted s' := by
  have hdecode : decodeOp countWord = some (.addImmW 1 21 21) := by decide
  let s' := s.setW 21 (s.getW 21 + 1)
  have hx : s'.x 21 = BitVec.ofNat 64 (r.count + 1) := by
    show ((s.getW 21 + 1).setWidth 64 : U64) = _
    have hlow : s.getW 21 = BitVec.ofNat 32 r.count := by
      show ((s.x 21).setWidth 32 : U32) = _
      rw [h.count]
      exact BitVec.setWidth_ofNat_of_le (by decide) _
    rw [hlow]
    apply BitVec.eq_of_toNat_eq
    have h1 : (1 : U32).toNat = 1 := rfl
    rw [BitVec.toNat_setWidth, BitVec.toNat_add, BitVec.toNat_ofNat, BitVec.toNat_ofNat, h1]
    omega
  have hne : ∀ q : Reg, q ≠ 21 → s'.x q = s.x q := fun q hq => (A64.set_x (by decide)).trans (if_neg hq)
  refine ⟨s', A64.goes_op hdecode rfl, ?_⟩
  exact ⟨(hne 19 (by decide)).trans h.cpu, h.sp, hx, fun q hq hq21 => (hne q hq21).trans (h.x q hq hq21), h.bytes, h.slot,
    h.rep⟩

section Body

variable [NetDevice] {h : Helpers} {e : Place} {s0 : State} {Q : Cpu → U64 → State → Prop} {rest : List U32} {n : Nat}

/-- **The code of the instructions does what `armRun` says**, and leaves for the epilogue where that fails. -/
theorem finishes_body (hfn : h.fn_load ≠ h.fn_store) : ∀ (ts : List GuestInsn) (r : Run) (s : State), (∀ t ∈ ts, verdict t.insn = .compiled) →
    PagesKept ts r → Separate e r.cpu.ram_size → r.cpu.x 0 = 0 → r.count + ts.length < 2 ^ 32 →
    bodyWords h ts + n + 38 < 2 ^ 18 → Inside e s0 r s → Goals h e s0 Q rest n (armRun ts r) →
    Finishes (HelperCall h e) Q (hidden r.cpu) (body h n ts ++ rest) s
  | [], r, s, _, _, _, _, _, _, hin, hgoals => hgoals.next r s rfl hin
  | t :: ts, r, s, hts, hpages, hsep, h0, hcount, hlen, hin, hgoals => by
    have hframe := framed_insn t r
    have hbody : (body h n ts).length = bodyWords h ts := body_length n ts fun t' ht' => hts t' (List.mem_cons_of_mem _ ht')
    rw [bodyWords_cons] at hlen
    rw [List.length_cons] at hcount
    have hwords : body h n (t :: ts) ++ rest =
        insnCode h t (cbnzWord (insnWords h t - (exitOf h t).getD 0 + (1 + (bodyWords h ts + n)))) ++
          (countWord :: body h n ts ++ rest) := by
      show insnCode h t (cbnzWord (insnWords h t - (exitOf h t).getD 0 + 1 + (bodyWords h ts + n))) ++ _ ++ rest = _
      rw [List.append_assoc, Nat.add_assoc]
    rw [hwords]
    refine finishes_insn hfn (hts t List.mem_cons_self) hin hsep (hsep.placed h0 hpages.start)
      (fun r' hr => (hpages.next hr).start) (by omega) ⟨fun r' s' hr hin' => ?_, fun r' s' hr hin' => ?_⟩
    · rw [hr] at hframe
      obtain ⟨⟨hram, hzero⟩, hsame⟩ := hframe
      have hcount' : r'.count = r.count := hsame
      have hram' : r'.cpu.ram_size = r.cpu.ram_size := hram
      obtain ⟨s1, hgo, hin1⟩ := hin'.counted (by omega)
      have hrun : armRun (t :: ts) r = armRun ts r'.counted := by rw [armRun, hr]
      rw [hrun] at hgoals
      show Finishes (HelperCall h e) Q _ ([countWord] ++ _) _
      refine Finishes.goes ?_ hgo
      refine finishes_body hfn ts r'.counted s1 (fun t' ht' => hts t' (List.mem_cons_of_mem _ ht')) (hpages.next hr) ?_
        (hzero h0) ?_ (by omega) hin1 hgoals
      · show Separate e r'.cpu.ram_size
        rw [hram']
        exact hsep
      · show r'.count + 1 + ts.length < 2 ^ 32
        omega
    · have hdrop : (countWord :: body h n ts ++ rest).drop (1 + (bodyWords h ts + n)) = rest.drop n := by
        rw [Nat.add_comm, List.cons_append, List.drop_succ_cons, ← hbody, List.drop_append,
          List.drop_of_length_le (Nat.le_add_right ..), List.nil_append, Nat.add_sub_cancel_left]
      rw [hdrop]
      exact hgoals.exit r' s' (by rw [armRun, hr]) hin'

/-- **Behind the instructions** the pc is written, or the branch made. -/
theorem goes_tail {r : Run} {s : State} (hin : Inside e s0 r s) (hsep : Separate e r.cpu.ram_size)
    (hp : Placed e.base e.ram r.cpu) (hcount : r.count + 1 < 2 ^ 32) (c : Cpu) {stop : Stop}
    (hstop : ∀ t, stop = .cannot t → verdict t.insn = .cannot) :
    ∃ s', Goes (tailCode h c stop) s s' ∧ Inside e s0 (armEnd c stop r) s' ∧ hidden (armEnd c stop r).cpu = hidden r.cpu := by
  have hpc : ∀ (ws : List U32) (pc : U64), Does e r.cpu r.cpu ws →
      ∃ s', Goes (ws ++ (movImm 0 pc ++ [strXWord 0 cpuReg offPc])) s s' ∧ Inside e s0 (r.setPc pc) s' := by
    intro ws pc hws
    obtain ⟨s', hgo, hsteady, hrep⟩ := hws.append (does_storePc hsep hp pc) s hin.cpu hin.rep
    exact ⟨s', hgo, hin.steady hsteady hrep⟩
  unfold tailCode armEnd
  cases stop with
  | ahead pc =>
    obtain ⟨s', hgo, hin'⟩ := hpc [] pc (does_nil e r.cpu)
    exact ⟨s', hgo, hin', rfl⟩
  | cannot t =>
    obtain ⟨s', hgo, hin'⟩ := hpc (plainCode h t) t.pc
      ((refused h (Compile.start t.pc) t.size (hstop t rfl)).2 e r.cpu hp)
    exact ⟨s', hgo, hin', rfl⟩
  | jumped => exact ⟨s, A64.goes_nil s, hin, rfl⟩
  | branch pc =>
    dsimp only
    rcases (jitFetchInsn pc c).1 with _ | ⟨raw, compressed⟩
    · exact ⟨s, A64.goes_nil s, hin, rfl⟩
    · obtain ⟨s1, hgo, hin1⟩ := hin.counted hcount
      obtain ⟨s', hgo', hsteady, hrep⟩ := does_branch hsep hp ⟨pc, expand raw compressed, insnBytes compressed⟩ s1 hin1.cpu
        hin1.rep
      exact ⟨s', hgo.lands hgo', hin1.steady hsteady hrep, hidden_branch _ _⟩

end Body

/-! ## Bytes of the frame and of the counters -/

theorem write_apart {m : Mem} {a b : U64} {n : Nat} (v : U64) (h : ∀ k, k < n → byteAt a k ≠ b) : (m.write a n v) b = m b := by
  refine Mem.write_of_le _ _ _ _ _ (Nat.not_lt.1 fun hin => h _ hin ?_)
  unfold byteAt
  rw [BitVec.ofNat_toNat, BitVec.setWidth_eq, BitVec.add_comm, BitVec.sub_add_cancel]

/-- What compiled code knows of the CPU does not depend on the counters and the frame. -/
theorem Represents.same {e : Place} {c : Cpu} {m m' : Mem} (h : Represents e.base e.ram m c)
    (hcpu : ∀ k, k < 264 ∨ 888 ≤ k ∧ k < 131960 → m' (byteAt e.base k) = m (byteAt e.base k))
    (hram : ∀ p, p < c.ram_size → m' (e.ram + p) = m (e.ram + p)) : Represents e.base e.ram m' c where
  x i := by
    have hoff := regOff_eq i
    exact (read_byteAt fun k _ hk => hcpu k (.inl (by omega))).trans (h.x i)
  pc := by
    have hoff := offsetOf_pc
    exact (read_byteAt fun k _ hk => hcpu k (.inl (by omega))).trans h.pc
  tlb i := by
    refine (h.tlb i).same fun k hk => ?_
    have hi := i.isLt
    rw [byteAt_byteAt, entryOff_eq]
    exact hcpu _ (.inr ⟨by omega, by omega⟩)
  ram p hp := (hram p hp).trans (h.ram p hp)

section Bytes

variable {e : Place} {c : Cpu} {m : Mem} {o n : Nat}

theorem Represents.frame (h : Represents e.base e.ram m c) (hsep : Separate e c.ram_size) (ho : o + n ≤ 48) (v : U64) :
    Represents e.base e.ram (m.write (byteAt e.sp o) n v) c := by
  have hle := le_offExec
  refine h.same (fun k hk => write_apart v fun i hi => ?_) fun p hp => write_apart v fun i hi => ?_
  · rw [byteAt_byteAt]
    exact hsep.frame_cpu _ _ (by omega) (by omega)
  · rw [byteAt_byteAt]
    exact hsep.frame_ram _ _ (by omega) hp

theorem Represents.counter (h : Represents e.base e.ram m c) (hsep : Separate e c.ram_size) (ho : o ∈ counterOffs) (v : U64) :
    Represents e.base e.ram (m.write (byteAt e.base o) 8 v) c := by
  have hoff := mem_counterOffs ho
  have hlt := offExec_lt
  refine h.same (fun k hk => write_byteAt v (by omega) (by omega) (by omega)) fun p hp => write_apart v fun i hi => ?_
  rw [byteAt_byteAt]
  exact hsep.cpu_ram _ _ (by omega) hp

/-- A counter, seen from the frame. -/
theorem read_frame (hsep : Separate e c.ram_size) (ho : o ∈ counterOffs) {k : Nat} (hk : k + 8 ≤ 48) (v : U64) :
    (m.write (byteAt e.base o) 8 v).read (byteAt e.sp k) 8 = m.read (byteAt e.sp k) 8 := by
  have hoff := mem_counterOffs ho
  refine read_byteAt fun i hi hi' => write_apart v fun j hj => ?_
  rw [byteAt_byteAt]
  exact (hsep.frame_cpu i _ (by omega) (by omega)).symm

/-- A counter, seen from another. -/
theorem read_counter {p : Nat} (ho : o ∈ counterOffs) (hp : p ∈ counterOffs) (hne : o ≠ p) (v : U64) :
    (m.write (byteAt e.base o) 8 v).read (byteAt e.base p) 8 = m.read (byteAt e.base p) 8 := by
  have hlt := offExec_lt
  have hle := le_offExec
  rw [counterOffs_eq] at ho hp
  simp only [List.mem_cons, List.not_mem_nil, or_false] at ho hp
  exact read_byteAt fun k hk hk' => write_byteAt v (by omega) (by omega) (by omega)

end Bytes

/-! ## The prologue -/

/-- The state behind the prologue, from that at its start. -/
structure Entered (e : Place) (s s0 : State) : Prop where
  x : ∀ q : Reg, 20 ≤ q.toNat ∧ q.toNat < 30 → q ≠ 21 → s0.x q = s.x q
  lr : s0.mem.read (byteAt e.sp 8) 8 = s.x 30
  x20 : s0.mem.read (byteAt e.sp 16) 8 = s.x 20
  x21 : s0.mem.read (byteAt e.sp 24) 8 = s.x 21
  counter : ∀ o ∈ counterOffs, s0.mem.read (byteAt e.base o) 8 = s.mem.read (byteAt e.base o) 8

theorem goes_prologue {e : Place} {c : Cpu} {s : State} (hsep : Separate e c.ram_size) (hcpu : s.x 0 = e.base)
    (hsp : s.sp = e.sp + 48) (hrep : Represents e.base e.ram s.mem c) :
    ∃ s0, Goes prologueCode s s0 ∧ Entered e s s0 ∧ Inside e s0 ⟨c, s.x 19, 0⟩ s0 := by
  have hframe : s.sp + A64.pairOff (-6) = e.sp := by
    have hoff : A64.pairOff (-6) = -48 := by decide
    rw [hoff, hsp, BitVec.add_assoc]
    exact BitVec.add_zero _
  have h16 : e.sp + A64.pairOff 2 = byteAt e.sp 16 := by
    have hoff : A64.pairOff 2 = 16 := by decide
    rw [hoff]
    rfl
  let m1 := (s.mem.write e.sp 8 (s.x 19)).write (byteAt e.sp 8) 8 (s.x 30)
  let m2 := (m1.write (byteAt e.sp 16) 8 (s.x 20)).write (byteAt e.sp 24) 8 (s.x 21)
  let s1 : State := { s with mem := m1, sp := e.sp }
  let s2 : State := { s1 with mem := m2 }
  have hpush : Goes [0xA9BD7BF3] s s1 := by
    refine A64.goes_op (i := .stpPre (-6) 30 31 19) (by decide) ?_
    show A64.Outcome.next ((s.storePair (s.sp + A64.pairOff (-6)) 19 30).setBase 31 (s.sp + A64.pairOff (-6))) = _
    rw [hframe]
    rfl
  have hpair : Goes [0xA90157F4] s1 s2 := by
    refine A64.goes_op (i := .stp 2 21 31 20) (by decide) ?_
    have h24 : byteAt e.sp 16 + 8 = byteAt e.sp 24 := byteAt_byteAt e.sp 16 8
    show A64.Outcome.next (s1.storePair (e.sp + A64.pairOff 2) 20 21) = _
    unfold State.storePair
    rw [h16, h24]
    rfl
  have hpin : Goes [movWord cpuReg 0] s2 (s2.set 19 (s2.x 0)) :=
    (straight_mov s2 19 (q := 0) (by decide) (by decide)).goes
  have hzero : Goes [movzWWord 21 0] (s2.set 19 (s2.x 0)) ((s2.set 19 (s2.x 0)).set 21 0) :=
    A64.goes_op (A64.decodeOp_base (i := .movzW 0 21) (by decide)) rfl
  have hsp0 : byteAt e.sp 0 = e.sp := BitVec.add_zero _
  have hreads : m2.read e.sp 8 = s.x 19 ∧ m2.read (byteAt e.sp 8) 8 = s.x 30 ∧ m2.read (byteAt e.sp 16) 8 = s.x 20 ∧
      m2.read (byteAt e.sp 24) 8 = s.x 21 := by
    have hother : ∀ (m : Mem) (a b : Nat) (v : U64), a + 8 ≤ b ∨ b + 8 ≤ a → a < 48 → b < 48 →
        (m.write (byteAt e.sp a) 8 v).read (byteAt e.sp b) 8 = m.read (byteAt e.sp b) 8 :=
      fun m a b v hab ha hb => read_byteAt fun k hk hk' => write_byteAt v (by omega) (by omega) (by omega)
    refine ⟨?_, ?_, ?_, Mem.read_dword ..⟩
    · rw [← hsp0]
      refine (hother _ 24 0 _ (by decide) (by decide) (by decide)).trans
        ((hother _ 16 0 _ (by decide) (by decide) (by decide)).trans
          ((hother _ 8 0 _ (by decide) (by decide) (by decide)).trans ?_))
      rw [hsp0]
      exact Mem.read_dword ..
    · exact (hother _ 24 8 _ (by decide) (by decide) (by decide)).trans
        ((hother _ 16 8 _ (by decide) (by decide) (by decide)).trans (Mem.read_dword ..))
    · exact (hother _ 24 16 _ (by decide) (by decide) (by decide)).trans (Mem.read_dword ..)
  have hrep2 : Represents e.base e.ram m2 c := by
    have hfirst := hrep.frame hsep (o := 0) (n := 8) (by decide) (s.x 19)
    rw [hsp0] at hfirst
    exact ((hfirst.frame hsep (o := 8) (by decide) _).frame hsep (o := 16) (by decide) _).frame hsep (o := 24) (by decide) _
  have hcounter : ∀ o ∈ counterOffs, m2.read (byteAt e.base o) 8 = s.mem.read (byteAt e.base o) 8 := by
    intro o ho
    have hoff := mem_counterOffs ho
    have hframe : ∀ (m : Mem) (a : Nat) (v : U64), a + 8 ≤ 48 →
        (m.write (byteAt e.sp a) 8 v).read (byteAt e.base o) 8 = m.read (byteAt e.base o) 8 := by
      refine fun m a v ha => read_byteAt fun k hk hk' => write_apart v fun i hi => ?_
      rw [byteAt_byteAt]
      exact hsep.frame_cpu _ _ (by omega) (by omega)
    have hlast := hframe s.mem 0 (s.x 19) (by decide)
    rw [hsp0] at hlast
    exact (hframe _ 24 _ (by decide)).trans ((hframe _ 16 _ (by decide)).trans ((hframe _ 8 _ (by decide)).trans hlast))
  have hx : ∀ q : Reg, 20 ≤ q.toNat ∧ q.toNat < 30 → q ≠ 21 → ((s2.set 19 (s2.x 0)).set 21 0).x q = s.x q := by
    intro q hq hne
    have h19 : q ≠ 19 := by
      rintro rfl
      exact absurd hq.1 (by decide)
    rw [A64.set_x (by decide), if_neg hne, A64.set_x (by decide), if_neg h19]
  refine ⟨(s2.set 19 (s2.x 0)).set 21 0, hpush.lands (hpair.lands (hpin.lands hzero)),
    ⟨hx, hreads.2.1, hreads.2.2.1, hreads.2.2.2, hcounter⟩, ?_⟩
  exact ⟨hcpu, rfl, rfl, fun _ _ _ => rfl, fun _ _ _ => rfl, hreads.1, hrep2⟩

/-! ## The epilogue -/

/-- One counter, `n` further. -/
def addTo (e : Place) (n : U64) (m : Mem) (o : Nat) : Mem := m.write (byteAt e.base o) 8 (m.read (byteAt e.base o) 8 + n)

section Epilogue

variable {e : Place} {n : U64} {c : Cpu}

theorem addTo_counters : ∀ (os : List Nat) (m : Mem), os.Nodup → (∀ o ∈ os, o ∈ counterOffs) → ∀ p ∈ counterOffs,
    (os.foldl (addTo e n) m).read (byteAt e.base p) 8 = m.read (byteAt e.base p) 8 + if p ∈ os then n else 0
  | [], m, _, _, p, _ => by
    rw [List.foldl_nil, if_neg List.not_mem_nil]
    exact (BitVec.add_zero _).symm
  | o :: os, m, hnodup, hos, p, hp => by
    obtain ⟨hnot, hnodup'⟩ := List.nodup_cons.1 hnodup
    rw [List.foldl_cons, addTo_counters os _ hnodup' (fun o' ho' => hos o' (List.mem_cons_of_mem _ ho')) p hp]
    by_cases hop : o = p
    · subst hop
      rw [if_neg hnot, if_pos List.mem_cons_self]
      exact (BitVec.add_zero _).trans (Mem.read_dword ..)
    · have hmem : p ∈ o :: os ↔ p ∈ os := by
        rw [List.mem_cons]
        exact ⟨fun h => h.resolve_left (Ne.symm hop), .inr⟩
      rw [show (addTo e n m o).read (byteAt e.base p) 8 = m.read (byteAt e.base p) 8 from
        read_counter (hos o List.mem_cons_self) hp hop _]
      simp only [hmem]

theorem addTo_rest (hsep : Separate e c.ram_size) : ∀ (os : List Nat) (m : Mem), (∀ o ∈ os, o ∈ counterOffs) →
    Represents e.base e.ram m c → Represents e.base e.ram (os.foldl (addTo e n) m) c ∧
      ∀ k, k + 8 ≤ 48 → (os.foldl (addTo e n) m).read (byteAt e.sp k) 8 = m.read (byteAt e.sp k) 8
  | [], _, _, hrep => ⟨hrep, fun _ _ => rfl⟩
  | o :: os, m, hos, hrep => by
    have ho := hos o List.mem_cons_self
    obtain ⟨hrep', hframe⟩ := addTo_rest hsep os (addTo e n m o) (fun o' ho' => hos o' (List.mem_cons_of_mem _ ho'))
      (hrep.counter hsep ho _)
    exact ⟨hrep', fun k hk => (hframe k hk).trans (read_frame hsep ho hk _)⟩

/-- The words of one counter. -/
theorem goes_counter (s : State) (rn : Reg) (off : U32) (imm : BitVec 12) {o : Nat}
    (hldr : decode (ldrXWord 0 (rn.setWidth 32) off) = some (.ldrX imm rn 0))
    (hstr : decode (strXWord 0 (rn.setWidth 32) off) = some (.strX imm rn 0)) (hrn : rn ≠ 0)
    (haddr : s.base rn + imm.setWidth 64 * 8 = byteAt e.base o) :
    ∃ s', Goes (counterCode (rn.setWidth 32) off) s s' ∧ (∀ q, q ≠ 0 → s'.x q = s.x q) ∧ s'.sp = s.sp ∧
      s'.mem = addTo e (s.x 21) s.mem o := by
  let v := s.mem.read (byteAt e.base o) 8
  let s2 := (s.set 0 v).set 0 (v + s.x 21)
  have hload : Goes [ldrXWord 0 (rn.setWidth 32) off] s (s.set 0 v) := by
    refine A64.goes_op (A64.decodeOp_base hldr) ?_
    show A64.Outcome.next (s.set 0 (s.mem.read (s.base rn + imm.setWidth 64 * 8) 8)) = _
    rw [haddr]
  have hadd : Goes [addWord 0 0 21] (s.set 0 v) s2 := A64.goes_op (A64.decodeOp_base (i := .add 21 0 0) (by decide)) rfl
  have hstore : Goes [strXWord 0 (rn.setWidth 32) off] s2 (s2.store (byteAt e.base o) 8 (v + s.x 21)) := by
    refine A64.goes_op (A64.decodeOp_base hstr) ?_
    have hbase : s2.base rn = s.base rn := by
      unfold State.base
      split
      · rfl
      · show s2.x rn = s.x rn
        rw [A64.set_x (by decide), if_neg hrn, A64.set_x (by decide), if_neg hrn]
    show A64.Outcome.next (s2.store (s2.base rn + imm.setWidth 64 * 8) 8 (v + s.x 21)) = _
    rw [hbase, haddr]
  refine ⟨_, hload.lands (hadd.lands hstore), fun q hq => ?_, rfl, rfl⟩
  show s2.x q = s.x q
  rw [A64.set_x (by decide), if_neg hq, A64.set_x (by decide), if_neg hq]

theorem goes_counters {s : State} (hcpu : s.x 19 = e.base) :
    ∃ s', Goes (counterCode cpuReg offInstret ++ (counterCode cpuReg offCycle ++
        (movImm 2 (BitVec.ofNat 64 offExec) ++ (addWord 2 cpuReg 2 :: counterCode 2 0)))) s s' ∧
      (∀ q, q ≠ 0 → q ≠ 2 → s'.x q = s.x q) ∧ s'.sp = s.sp ∧ s'.mem = counterOffs.foldl (addTo e (s.x 21)) s.mem := by
  obtain ⟨s1, hgo1, hx1, hsp1, hmem1⟩ := goes_counter (e := e) (o := 704) s 19 offInstret 88
    (by decide +kernel) (by decide +kernel) (by decide) (by rw [show s.base 19 = s.x 19 from rfl, hcpu]; rfl)
  have hcpu1 : s1.x 19 = e.base := (hx1 19 (by decide)).trans hcpu
  obtain ⟨s2, hgo2, hx2, hsp2, hmem2⟩ := goes_counter (e := e) (o := 696) s1 19 offCycle 87
    (by decide) (by decide +kernel) (by decide) (by rw [show s1.base 19 = s1.x 19 from rfl, hcpu1]; rfl)
  have hcpu2 : s2.x 19 = e.base := (hx2 19 (by decide)).trans hcpu1
  let s3 := s2.set 2 (BitVec.ofNat 64 offExec)
  let s4 := s3.set 2 (s3.x 19 + BitVec.ofNat 64 offExec)
  have hmov : Goes (movImm 2 (BitVec.ofNat 64 offExec)) s2 s3 := goes_mov 2 (by decide) _ s2
  have hadd : Goes [addWord 2 cpuReg 2] s3 s4 := A64.goes_op (A64.decodeOp_base (i := .add 2 19 2) (by decide)) rfl
  have h4 : ∀ q, q ≠ 2 → s4.x q = s2.x q := by
    intro q hq
    rw [A64.set_x (by decide), if_neg hq, A64.set_x (by decide), if_neg hq]
  have haddr : s4.base 2 + (0 : BitVec 12).setWidth 64 * 8 = byteAt e.base offExec := by
    have hbase : s4.base 2 = s2.x 19 + BitVec.ofNat 64 offExec := rfl
    rw [hbase, hcpu2]
    exact BitVec.add_zero _
  obtain ⟨s5, hgo5, hx5, hsp5, hmem5⟩ := goes_counter (e := e) (o := offExec) s4 2 0 0
    (by decide) (by decide +kernel) (by decide) haddr
  have h21 : s1.x 21 = s.x 21 ∧ s4.x 21 = s.x 21 :=
    ⟨hx1 21 (by decide), (h4 21 (by decide)).trans ((hx2 21 (by decide)).trans (hx1 21 (by decide)))⟩
  refine ⟨s5, hgo1.lands (hgo2.lands (hmov.lands (hadd.lands hgo5))), fun q h0 h2 => ?_, ?_, ?_⟩
  · exact (hx5 q h0).trans ((h4 q h2).trans ((hx2 q h0).trans (hx1 q h0)))
  · exact hsp5.trans (hsp2.trans hsp1)
  · have hm4 : s4.mem = s2.mem := rfl
    rw [counterOffs_eq, hmem5, hm4, hmem2, hmem1, h21.1, h21.2]
    rfl

end Epilogue

/-- What a block returns with: `s` is the state it was called in, `r` the run.  All registers that functions keep are back
but x19. -/
structure Returned (e : Place) (s : State) (r : Run) (target : U64) (t : State) : Prop where
  target : target = s.x 30
  sp : t.sp = s.sp
  kept : ∀ q : Reg, 20 ≤ q.toNat ∧ q.toNat < 30 → t.x q = s.x q
  saved : t.x 19 = r.slot
  count : t.x 0 = BitVec.ofNat 64 r.count
  counters : ∀ o ∈ counterOffs,
    t.mem.read (byteAt e.base o) 8 = s.mem.read (byteAt e.base o) 8 + BitVec.ofNat 64 r.count
  rep : Represents e.base e.ram t.mem r.cpu

/-- The frame is taken down: `X0` has the count, and the saved registers are back. -/
structure Popped (e : Place) (s t : State) : Prop where
  sp : t.sp = e.sp + 48
  mem : t.mem = s.mem
  count : t.x 0 = s.x 21
  x19 : t.x 19 = s.mem.read e.sp 8
  x30 : t.x 30 = s.mem.read (byteAt e.sp 8) 8
  x20 : t.x 20 = s.mem.read (byteAt e.sp 16) 8
  x21 : t.x 21 = s.mem.read (byteAt e.sp 24) 8
  x : ∀ q : Reg, 20 ≤ q.toNat ∧ q.toNat < 30 → q ≠ 20 → q ≠ 21 → t.x q = s.x q

def popCode : List U32 := [movWord 0 21] ++ ([0xA94157F4] ++ [0xA8C37BF3])

theorem goes_pop {e : Place} {s : State} (hsp : s.sp = e.sp) : ∃ t, Goes popCode s t ∧ Popped e s t := by
  let s2 := s.set 0 (s.x 21)
  let s3 := s2.loadPair (byteAt e.sp 16) 20 21
  let s4 := (s3.loadPair e.sp 19 30).setBase 31 (e.sp + 48)
  have hmov : Goes [movWord 0 21] s s2 := (straight_mov s 0 (q := 21) (by decide) (by decide)).goes
  have hpair : Goes [0xA94157F4] s2 s3 := by
    refine A64.goes_op (i := .ldp 2 21 31 20) (by decide) ?_
    have hoff : A64.pairOff 2 = 16 := by decide
    show A64.Outcome.next (s2.loadPair (s.sp + A64.pairOff 2) 20 21) = _
    rw [hsp, hoff]
    rfl
  have hpop : Goes [0xA8C37BF3] s3 s4 := by
    refine A64.goes_op (i := .ldpPost 6 30 31 19) (by decide) ?_
    have hoff : A64.pairOff 6 = 48 := by decide
    show A64.Outcome.next ((s3.loadPair s.sp 19 30).setBase 31 (s.sp + A64.pairOff 6)) = _
    rw [hsp, hoff]
  refine ⟨s4, hmov.lands (hpair.lands hpop), rfl, rfl, rfl, rfl, rfl, rfl, ?_, fun q hq h20 h21 => ?_⟩
  · show s.mem.read (byteAt e.sp 16 + 8) 8 = _
    exact congrArg (fun a => s.mem.read a 8) (byteAt_byteAt e.sp 16 8)
  · have hne : q ≠ 0 ∧ q ≠ 19 ∧ q ≠ 30 := by
      refine ⟨?_, ?_, ?_⟩ <;> (rintro rfl; revert hq; decide)
    show (((((s.set 0 (s.x 21)).set 20 _).set 21 _).set 19 _).set 30 _).x q = _
    rw [A64.set_x (by decide), if_neg hne.2.2, A64.set_x (by decide), if_neg hne.2.1, A64.set_x (by decide), if_neg h21,
      A64.set_x (by decide), if_neg h20, A64.set_x (by decide), if_neg hne.1]

theorem counterOffs_nodup : counterOffs.Nodup := by
  have hle := le_offExec
  rw [counterOffs_eq]
  simp only [List.nodup_cons, List.mem_cons, List.not_mem_nil, or_false, not_or, List.nodup_nil, and_true, not_false_eq_true]
  omega

/-- **The epilogue** adds the count to the counters and returns it. -/
theorem finishes_return {call : Cpu → U64 → State → Cpu → State → Prop} {e : Place} {entry s0 s : State} {r : Run}
    (hin : Inside e s0 r s) (hent : Entered e entry s0) (hsp : entry.sp = e.sp + 48) (hsep : Separate e r.cpu.ram_size) :
    Finishes call (fun w target t => w = hidden r.cpu ∧ Returned e entry r target t) (hidden r.cpu) returnCode s := by
  obtain ⟨s1, hgo, hx1, hsp1, hmem1⟩ := goes_counters (e := e) hin.cpu
  obtain ⟨hrep, hframe⟩ := addTo_rest (n := s.x 21) hsep counterOffs s.mem (fun _ ho => ho) hin.rep
  obtain ⟨t, hpop, ht⟩ := goes_pop (hsp1.trans hin.sp)
  -- The frame, as the prologue left it.
  have hread : ∀ k, k = 8 ∨ k = 16 ∨ k = 24 → s1.mem.read (byteAt e.sp k) 8 = s0.mem.read (byteAt e.sp k) 8 := by
    intro k hk
    rw [hmem1, hframe k (by omega)]
    refine read_byteAt fun i hi hi' => hin.bytes _ (.inl ⟨i, by omega, rfl⟩) ?_
    rintro ⟨j, hj, he⟩
    have hne : byteAt e.sp i ≠ byteAt e.sp j := by
      unfold byteAt
      bv_omega
    exact hne he
  have hslot : s1.mem.read e.sp 8 = r.slot := by
    have h0 := hframe 0 (by decide)
    rw [show byteAt e.sp 0 = e.sp from BitVec.add_zero _] at h0
    rw [hmem1, h0, hin.slot]
  have hkept : ∀ q : Reg, 20 ≤ q.toNat ∧ q.toNat < 30 → t.x q = entry.x q := by
    intro q hq
    by_cases h20 : q = 20
    · rw [h20, ht.x20, hread 16 (.inr (.inl rfl)), hent.x20]
    by_cases h21 : q = 21
    · rw [h21, ht.x21, hread 24 (.inr (.inr rfl)), hent.x21]
    have hne : q ≠ 0 ∧ q ≠ 2 := by
      refine ⟨?_, ?_⟩ <;> (rintro rfl; revert hq; decide)
    rw [ht.x q hq h20 h21, hx1 q hne.1 hne.2, hin.x q hq h21, hent.x q hq h21]
  have hcounters : ∀ o ∈ counterOffs,
      t.mem.read (byteAt e.base o) 8 = entry.mem.read (byteAt e.base o) 8 + BitVec.ofNat 64 r.count := by
    intro o ho
    have hoff := mem_counterOffs ho
    have hsame : s.mem.read (byteAt e.base o) 8 = entry.mem.read (byteAt e.base o) 8 := by
      refine Eq.trans (read_byteAt fun k hk hk' => hin.bytes _ (.inr ⟨o, ho, k - o, by omega, ?_⟩) ?_) (hent.counter o ho)
      · rw [Nat.add_sub_cancel' hk]
      · rintro ⟨j, hj, he⟩
        exact hsep.frame_cpu j k (by omega) (by omega) he.symm
    rw [ht.mem, hmem1, addTo_counters counterOffs s.mem counterOffs_nodup (fun _ h => h) o ho, if_pos ho, hsame, hin.count]
  have hret : Returned e entry r (t.get 30) t := by
    refine ⟨?_, ht.sp.trans hsp.symm, hkept, ht.x19.trans hslot, ?_, hcounters, by rwa [ht.mem, hmem1]⟩
    · show t.x 30 = entry.x 30
      rw [ht.x30, hread 8 (.inl rfl), hent.lr]
    · rw [ht.count, hx1 21 (by decide) (by decide), hin.count]
  have hwords : returnCode = (counterCode cpuReg offInstret ++ (counterCode cpuReg offCycle ++
      (movImm 2 (BitVec.ofNat 64 offExec) ++ (addWord 2 cpuReg 2 :: counterCode 2 0)))) ++ (popCode ++ [0xD65F03C0]) := by
    unfold returnCode popCode
    simp only [List.append_assoc, List.cons_append, List.nil_append]
  rw [hwords]
  refine Finishes.goes ?_ hgo
  refine Finishes.goes ?_ hpop
  exact A64.finishes_ret (r := 30) (by decide) ⟨rfl, hret⟩

/-! ## The block -/

section Block

variable [NetDevice]

theorem scan_length : ∀ (n : Nat) (pc : U64) (c : Cpu), (scan n pc c).1.length ≤ n
  | 0, _, _ => Nat.le_refl 0
  | n + 1, pc, c => by
    unfold scan
    rcases jitFetchInsn pc c with ⟨_ | ⟨raw, compressed⟩, c'⟩
    · exact Nat.zero_le _
    · dsimp only
      have hnext := scan_length n (pc + insnBytes compressed) c'
      split
      · exact Nat.zero_le _
      · split
        · exact Nat.zero_le _
        · exact Nat.zero_le _
        · split
          · exact Nat.succ_le_succ (Nat.zero_le _)
          · exact Nat.succ_le_succ hnext

theorem tailCode_le (h : Helpers) (c : Cpu) {stop : Stop} (hstop : ∀ t, stop = .cannot t → verdict t.insn = .cannot) :
    (tailCode h c stop).length ≤ 57 := by
  have hlen := tailCode_length (h := h) c hstop
  have hmov := movWords_le
  have hlost : lostWords h stop ≤ 36 := by
    unfold lostWords
    split
    · exact insnWords_le h _
    · decide
  have hfinish : finishWords c stop ≤ 17 + epilogueWords := by
    unfold finishWords
    cases stop with
    | ahead pc =>
      have := hmov pc
      dsimp only
      omega
    | cannot t =>
      have := hmov t.pc
      dsimp only
      omega
    | jumped => exact Nat.le_add_left ..
    | branch pc =>
      dsimp only
      split
      · exact Nat.le_add_left ..
      · next raw compressed _ =>
        have := hmov (pc + insnBytes compressed)
        have := hmov (pc + immB (expand raw compressed))
        unfold branchWords
        split <;> omega
  omega

theorem framed_run : ∀ (ts : List GuestInsn) (r : Run),
    (finalRun (armRun ts r)).cpu.ram_size = r.cpu.ram_size ∧ ∀ r', armRun ts r = .ok r' →
      Framed r.cpu r'.cpu ∧ r'.count = r.count + ts.length
  | [], r => by
    refine ⟨rfl, fun r' h => ?_⟩
    cases h
    exact ⟨⟨rfl, id⟩, rfl⟩
  | t :: ts, r => by
    have hstep := framed_insn t r
    unfold armRun
    cases hr : armInsn t r with
    | error r1 =>
      rw [hr] at hstep
      exact ⟨hstep.1.ram_size, fun r' h => by cases h⟩
    | ok r1 =>
      rw [hr] at hstep
      obtain ⟨hframe, hcount⟩ := hstep
      have hcount1 : r1.count = r.count := hcount
      obtain ⟨hram, hok⟩ := framed_run ts r1.counted
      refine ⟨hram.trans hframe.ram_size, fun r' h => ?_⟩
      obtain ⟨hframe', hcount'⟩ := hok r' h
      refine ⟨⟨hframe'.ram_size.trans hframe.ram_size, fun h0 => hframe'.zero (hframe.zero h0)⟩, ?_⟩
      rw [hcount', List.length_cons]
      show r1.count + 1 + ts.length = _
      omega

theorem armEnd_ram_size (c : Cpu) (stop : Stop) (r : Run) : (armEnd c stop r).cpu.ram_size = r.cpu.ram_size := by
  unfold armEnd
  cases stop with
  | ahead _ | cannot _ | jumped => rfl
  | branch pc =>
    dsimp only
    split
    · rfl
    · unfold armBranch
      split <;> rfl

/-- **A compiled block returns, and has done what `armBlock` says**: whatever the helpers answer, the registers that
functions keep are back but x19, which is as the slot. -/
theorem blockCode_finishes {h : Helpers} {e : Place} {pc : U64} {cc c : Cpu} {s : State} (hfn : h.fn_load ≠ h.fn_store)
    (hsep : Separate e c.ram_size) (h0 : c.x 0 = 0) (hcpu : s.x 0 = e.base) (hsp : s.sp = e.sp + 48)
    (hrep : Represents e.base e.ram s.mem c) (hpages : PagesKept (scan jitMaxBlockInsns pc cc).1 ⟨c, s.x 19, 0⟩) :
    let r := armBlock pc cc ⟨c, s.x 19, 0⟩
    Finishes (HelperCall h e) (fun w target t => w = hidden r.cpu ∧ Returned e s r target t) (hidden c)
      (blockCode h pc cc) s := by
  intro r
  let b := scan jitMaxBlockInsns pc cc
  let tail := tailCode h b.2.2 b.2.1
  have hts : ∀ t ∈ b.1, verdict t.insn = .compiled := scan_compiled jitMaxBlockInsns pc cc
  have hstop : ∀ t, b.2.1 = .cannot t → verdict t.insn = .cannot := scan_refused jitMaxBlockInsns pc cc
  have hcount : b.1.length ≤ 64 := scan_length jitMaxBlockInsns pc cc
  have htail : tail.length ≤ 57 := tailCode_le h b.2.2 hstop
  have hwords : bodyWords h b.1 ≤ 37 * b.1.length := bodyWords_le fun t _ => insnWords_le h t
  obtain ⟨s0, hgo, hent, hin0⟩ := goes_prologue hsep hcpu hsp hrep
  obtain ⟨hram, hok⟩ := framed_run b.1 ⟨c, s.x 19, 0⟩
  have hr : r = match armRun b.1 ⟨c, s.x 19, 0⟩ with
      | .ok r => armEnd b.2.2 b.2.1 r
      | .error r => r := rfl
  show Finishes (HelperCall h e) _ _ (prologueCode ++ (body h _ b.1 ++ (tail ++ returnCode))) s
  refine Finishes.goes ?_ hgo
  refine finishes_body hfn b.1 ⟨c, s.x 19, 0⟩ s0 hts hpages hsep h0
    (show 0 + b.1.length < 2 ^ 32 by omega) (show bodyWords h b.1 + tail.length + 38 < 2 ^ 18 by omega) hin0
    ⟨fun r1 s1 hrun hin => ?_, fun r1 s1 hrun hin => ?_⟩
  · obtain ⟨hframe, hcount1⟩ := hok r1 hrun
    have hram1 : r1.cpu.ram_size = c.ram_size := hframe.ram_size
    have hsep1 : Separate e r1.cpu.ram_size := by
      rw [hram1]
      exact hsep
    have hpages1 : PagesIn r1.cpu := hpages b.1.length r1 (by rw [List.take_length]; exact hrun)
    have hcount1' : r1.count = 0 + b.1.length := hcount1
    obtain ⟨s2, hgo2, hin2, hworld⟩ := goes_tail (h := h) hin hsep1 (hsep1.placed (hframe.zero h0) hpages1) (by omega) b.2.2
      hstop
    rw [hrun] at hr
    rw [← hworld, hr]
    refine Finishes.goes ?_ hgo2
    exact finishes_return hin2 hent hsp (by rw [armEnd_ram_size]; exact hsep1)
  · rw [hrun] at hr hram
    have hram1 : r1.cpu.ram_size = c.ram_size := hram
    rw [hr, List.drop_left]
    exact finishes_return hin hent hsp (by rw [hram1]; exact hsep)

/-- What the code of a block does it does from where it was put. -/
theorem finishes_compiled {W : Type} {call : W → U64 → State → W → State → Prop} {Q : W → U64 → State → Prop} {w : W}
    {h : Helpers} {pc : U64} {cc : Cpu} {j : CodeBuf} {s : State} (hcap : maxNeeded ≤ j.code_capacity)
    (hmax : j.code_capacity ≤ jitCapacity) (hroom : (reserve j).2.code_off + blockWords h pc cc ≤ j.code_capacity)
    (hcount : blockInsns pc cc ≠ 0) (hfin : Finishes call Q w (blockCode h pc cc) s) :
    ∃ b, (jitCompileBlock h pc cc j).1.1 = some b ∧
      Finishes call Q w ((jitCompileBlock h pc cc j).2.code_buf.drop b.host_code) s := by
  obtain ⟨⟨b, hb, -, hhost, -⟩, hbuf⟩ := jitCompileBlock_code hcap hmax hroom hcount
  refine ⟨b, hb, ?_⟩
  rw [hbuf, hhost]
  show Finishes call Q w (((reserve j).2.code_buf ++ _).drop (reserve j).2.code_buf.length) s
  rw [List.drop_left]
  exact hfin

/-- **Compiled code returns to its caller wherever in the buffer it stands**, and has run the block: whatever the helpers
answer, the guest is as `armBlock` says, and the caller's registers are back but x19. -/
theorem jitCompileBlock_returns {h : Helpers} {e : Place} {pc : U64} {cc c : Cpu} {j : CodeBuf} {s : State}
    (hfn : h.fn_load ≠ h.fn_store) (hcap : maxNeeded ≤ j.code_capacity) (hmax : j.code_capacity ≤ jitCapacity)
    (hroom : (reserve j).2.code_off + blockWords h pc cc ≤ j.code_capacity) (hcount : blockInsns pc cc ≠ 0)
    (hsep : Separate e c.ram_size) (h0 : c.x 0 = 0) (hcpu : s.x 0 = e.base) (hsp : s.sp = e.sp + 48)
    (hrep : Represents e.base e.ram s.mem c) (hpages : PagesKept (scan jitMaxBlockInsns pc cc).1 ⟨c, s.x 19, 0⟩) :
    let r := armBlock pc cc ⟨c, s.x 19, 0⟩
    ∃ b, (jitCompileBlock h pc cc j).1.1 = some b ∧
      Finishes (HelperCall h e) (fun w target t => w = hidden r.cpu ∧ Returned e s r target t) (hidden c)
        ((jitCompileBlock h pc cc j).2.code_buf.drop b.host_code) s :=
  finishes_compiled hcap hmax hroom hcount (blockCode_finishes hfn hsep h0 hcpu hsp hrep hpages)

end Block

/-! ## A block that shows it -/

section Instances

local instance returnNet : NetDevice := NetDevice.silent

/-- The page of the UART, which has no host pointer. -/
def uartPage : TlbEntry := ⟨0x10000, 0x10000, none, 0x06, 0, true, true⟩

/-- A supervisor with the waiting driver in RAM, and the page of the UART in the TLB. -/
def uartCpu : Cpu := { kernelPageCpu privS with tlb := setAt Tlb.zero 0 uartPage, bus := (textCpu pollProgram).bus }

/-- The driver at its first instruction, with the address of the UART in `x2`. -/
def pollCpu : Cpu := { uartCpu.wr 2 0x10000000 with pc := ramBase }

def pollMem : Mem :=
  ((putGuest onesPlace uartCpu kernelPageMem).write (byteAt cpuBase 16) 8 0x10000000).write (byteAt cpuBase 256) 8 ramBase

/-- Called at the base of the CPU, with a frame below 48. -/
def pollEntry : State := ⟨fun r => if r = 0 then cpuBase else 0, 48, false, false, false, false, pollMem⟩

theorem uartCpu_tlb (i : BitVec 12) : (uartCpu.tlb i).host_base = none := by
  show (setAt Tlb.zero 0 uartPage i).host_base = none
  by_cases hi : i = 0
  · rw [hi]
    rfl
  · rw [setAt_ne _ _ hi]
    rfl

theorem pagesIn_uart {c : Cpu} (htlb : c.tlb = uartCpu.tlb) : PagesIn c := fun i b hb => by
  rw [htlb, uartCpu_tlb i] at hb
  cases hb

theorem pollCpu_separate : Separate onesPlace pollCpu.ram_size := onesCpu_separate 0

theorem pollMem_represents : Represents cpuBase ramStart pollMem pollCpu := by
  have hframe : AccessFrame (kernelPageCpu privS) uartCpu := ⟨_, _, _, rfl⟩
  have hsep : Separate onesPlace (kernelPageCpu privS).ram_size := onesCpu_separate 0
  have hsep' : Separate onesPlace uartCpu.ram_size := onesCpu_separate 0
  have huart : Represents cpuBase ramStart (putGuest onesPlace uartCpu kernelPageMem) uartCpu :=
    represents_putGuest hsep (kernelPage_represents privS) hframe
  have hp : Placed cpuBase ramStart uartCpu := hsep'.placed rfl (pagesIn_uart rfl)
  have hp' : Placed cpuBase ramStart (uartCpu.wr 2 0x10000000) := ⟨hp.apart, hp.nonNull, rfl, hp.pages⟩
  exact (huart.setReg hp (by decide) 0x10000000).setPc hp' ramBase

/-- The load reads the line status of the UART, which no inline test serves. -/
theorem poll_load (slot : U64) : armInsn (wordAt 0 0x00514083) ⟨pollCpu, slot, 0⟩ = .ok ⟨pollCpu.wr 1 0x60, 0x60, 0⟩ := by
  have hva : pollCpu.x 2 + immI 0x00514083 = 0x10000005 := by decide
  have hmiss : inlineHits false (pollCpu.tlbEntry 0x10000005) 0x10000005 1 = false := by decide
  have hload : rv64CpuLoad 0x10000005 1 .read pollCpu = .ok 0x60 pollCpu := rfl
  exact armLoad_answered (t := wordAt 0 0x00514083) (r := ⟨pollCpu, slot, 0⟩) hva hmiss hload

/-- The store sends what was read, by its helper too. -/
theorem poll_store : ∃ d, armInsn (wordAt 1 0x00110023) ⟨pollCpu.wr 1 0x60, 0x60, 1⟩ = .ok ⟨d, 0x60, 1⟩ ∧ d.tlb = uartCpu.tlb := by
  have hva : (pollCpu.wr 1 0x60).x 2 + immS 0x00110023 = 0x10000000 := by decide
  have hmiss : inlineHits true ((pollCpu.wr 1 0x60).tlbEntry 0x10000000) 0x10000000 1 = false := by decide
  obtain ⟨d, hstore, htlb⟩ : ∃ d, cpuStore 0x10000000 1 0x60 { pollCpu.wr 1 0x60 with pc := ramBase + 4 } = .ok () d ∧
      d.tlb = uartCpu.tlb := ⟨_, rfl, rfl⟩
  exact ⟨d, armStore_answered (t := wordAt 1 0x00110023) (r := ⟨pollCpu.wr 1 0x60, 0x60, 1⟩) hva rfl hmiss hstore, htlb⟩

theorem poll_pages (slot : U64) : PagesKept pollList ⟨pollCpu, slot, 0⟩ := by
  obtain ⟨d, hstore, htlb⟩ := poll_store
  refine .cons (pagesIn_uart rfl) (poll_load slot) (.cons (pagesIn_uart rfl) hstore ?_)
  exact .cons (pagesIn_uart htlb) rfl (pagesKept_nil (pagesIn_uart htlb))

theorem poll_room : (reserve emptyBuf).2.code_off + blockWords highHelpers ramBase (textCpu pollProgram) ≤ emptyBuf.code_capacity := by
  show 0 + blockWords highHelpers ramBase (textCpu pollProgram) ≤ jitCapacity
  exact Nat.zero_add _ ▸ Nat.le_trans blockWords_poll (by decide)

theorem poll_counts : blockInsns ramBase (textCpu pollProgram) ≠ 0 := by
  unfold blockInsns
  rw [scan_poll]
  decide

/-- **The driver, compiled into an empty buffer**: both its accesses call. -/
theorem jitCompileBlock_returns_poll :
    ∃ b, (jitCompileBlock highHelpers ramBase (textCpu pollProgram) emptyBuf).1.1 = some b ∧
      Finishes (HelperCall highHelpers onesPlace) (fun w target t =>
          let r := armBlock ramBase (textCpu pollProgram) ⟨pollCpu, pollEntry.x 19, 0⟩
          w = hidden r.cpu ∧ Returned onesPlace pollEntry r target t) (hidden pollCpu)
        ((jitCompileBlock highHelpers ramBase (textCpu pollProgram) emptyBuf).2.code_buf.drop b.host_code) pollEntry := by
  have hpages : PagesKept (scan jitMaxBlockInsns ramBase (textCpu pollProgram)).1 ⟨pollCpu, pollEntry.x 19, 0⟩ := by
    rw [scan_poll]
    exact poll_pages _
  exact jitCompileBlock_returns (by decide) (by decide) (by decide) poll_room poll_counts pollCpu_separate rfl rfl rfl
    pollMem_represents hpages

end Instances

end Arm64
end PgLinux
