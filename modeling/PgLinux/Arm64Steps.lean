import PgLinux.Arm64Reserve
import PgLinux.Arm64Values
/-!
# Arm64Steps — the compiled instructions that call nothing (`rv64_jit.c`)

Each leads from a memory that holds one CPU to a memory that holds the next.  The frame of the block and the counters of
the CPU are for the prologue and the epilogue; the code between leaves them alone.
-/
namespace PgLinux
namespace Arm64

open CpuLayout (cpuFields offExec)
open A64 (Goes Keeps Lands Op Reg State decode decodeOp execOp)

/-! ## Places -/

/-- Where a block finds the CPU and guest RAM, and where its frame is. -/
structure Place where
  base : U64
  ram : U64
  sp : U64

def counterOffs : List Nat := [cpuFields.offsetOf "instret", cpuFields.offsetOf "cycle", offExec]

/-- The bytes of the frame and of the counters. -/
def Guarded (e : Place) (a : U64) : Prop :=
  (∃ k, k < 48 ∧ a = byteAt e.sp k) ∨ ∃ o ∈ counterOffs, ∃ k, k < 8 ∧ a = byteAt e.base (o + k)

/-- What a C program has of its objects: the CPU, guest RAM and the stack stand apart, and RAM not at NULL. -/
structure Separate (e : Place) (ramSize : U64) : Prop where
  cpu_ram : ∀ n p, n < offExec + 8 → p < ramSize → byteAt e.base n ≠ e.ram + p
  frame_cpu : ∀ k n, k < 48 → n < offExec + 8 → byteAt e.sp k ≠ byteAt e.base n
  frame_ram : ∀ k p, k < 48 → p < ramSize → byteAt e.sp k ≠ e.ram + p
  nonNull : ∀ p, p < ramSize → e.ram + p ≠ 0

/-- The pointers of the TLB are to pages of RAM. -/
def PagesIn (c : Cpu) : Prop := ∀ i h, (c.tlb i).host_base = some h → h.toNat + 4096 ≤ c.ram_size.toNat

theorem Separate.placed {e : Place} {c : Cpu} (h : Separate e c.ram_size) (h0 : c.x 0 = 0) (hpages : PagesIn c) :
    Placed e.base e.ram c :=
  ⟨fun n p hn hp => h.cpu_ram n p (by omega) hp, h.nonNull, h0, hpages⟩

theorem counterOffs_eq : counterOffs = [704, 696, offExec] := by
  have hinstret : cpuFields.offsetOf "instret" = 704 := by decide
  have hcycle : cpuFields.offsetOf "cycle" = 696 := by decide
  unfold counterOffs
  rw [hinstret, hcycle]

theorem mem_counterOffs {o : Nat} (h : o ∈ counterOffs) : 264 ≤ o ∧ o ≤ offExec ∧ (o + 8 ≤ 888 ∨ 131960 ≤ o) := by
  have hle := le_offExec
  rw [counterOffs_eq] at h
  simp only [List.mem_cons, List.not_mem_nil, or_false] at h
  omega

theorem offExec_lt : offExec < 2 ^ 31 := by decide +kernel

/-! ## Guarded bytes -/

section Guarded

variable {e : Place} {m : Mem} {ramSize a : U64}

/-- A store into the structure, away from the counters. -/
theorem Separate.write_cpu (h : Separate e ramSize) (ha : Guarded e a) {o n : Nat} (v : U64)
    (ho : o + n ≤ 264 ∨ 888 ≤ o ∧ o + n ≤ 131960) : (m.write (byteAt e.base o) n v) a = m a := by
  have hle := le_offExec
  have hlt := offExec_lt
  rcases ha with ⟨k, hk, rfl⟩ | ⟨p, hp, k, hk, rfl⟩
  · refine Mem.write_of_le _ _ _ _ _ (Nat.not_lt.1 fun hin => ?_)
    refine h.frame_cpu k (o + (byteAt e.sp k - byteAt e.base o).toNat) hk (by omega) ?_
    rw [← byteAt_byteAt]
    show byteAt e.sp k = byteAt e.base o + BitVec.ofNat 64 (byteAt e.sp k - byteAt e.base o).toNat
    rw [BitVec.ofNat_toNat, BitVec.setWidth_eq, BitVec.add_comm (byteAt e.base o), BitVec.sub_add_cancel]
  · have hoff := mem_counterOffs hp
    exact write_byteAt v (by omega) (by omega) (by omega)

/-- A store into RAM. -/
theorem Separate.write_guest (h : Separate e ramSize) (ha : Guarded e a) {p : U64} {n : Nat} (v : U64)
    (hn : p.toNat + n ≤ ramSize.toNat) : (m.write (e.ram + p) n v) a = m a := by
  refine Mem.write_of_le _ _ _ _ _ (Nat.not_lt.1 fun hin => ?_)
  have hlt : p + (a - (e.ram + p)) < ramSize := by
    rw [BitVec.lt_def, BitVec.toNat_add, Nat.mod_eq_of_lt (by have := ramSize.isLt; omega)]
    omega
  have hat : a = e.ram + (p + (a - (e.ram + p))) := by
    rw [← BitVec.add_assoc, BitVec.add_comm, BitVec.sub_add_cancel]
  rcases ha with ⟨k, hk, rfl⟩ | ⟨o, ho, k, hk, rfl⟩
  · exact h.frame_ram k _ hk hlt hat
  · have hoff := mem_counterOffs ho
    exact h.cpu_ram _ _ (by omega) hlt hat

end Guarded

/-- The registers that functions keep, x19 to x29 and the stack pointer. -/
structure Kept (s s' : State) : Prop where
  x : ∀ q : Reg, 19 ≤ q.toNat ∧ q.toNat < 30 → s'.x q = s.x q
  sp : s'.sp = s.sp

theorem kept_self (s : State) : Kept s s := ⟨fun _ _ => rfl, rfl⟩

theorem Kept.trans {s s' s'' : State} (h : Kept s s') (h' : Kept s' s'') : Kept s s'' :=
  ⟨fun q hq => (h'.x q hq).trans (h.x q hq), h'.sp.trans h.sp⟩

theorem kept_set {r : Reg} (hr : r.toNat < 19) (s : State) (v : U64) : Kept s (s.set r v) := by
  have h31 : r ≠ 31 := by
    rintro rfl
    exact absurd hr (by decide)
  refine ⟨fun q hq => ?_, ?_⟩
  · have hne : q ≠ r := by
      rintro rfl
      omega
    rw [A64.set_x h31, if_neg hne]
  · unfold State.set
    rw [if_neg h31]
    rfl

theorem Kept.of_keeps {rs : List Reg} {s s' : State} (h : Keeps rs s s') (hrs : ∀ r ∈ rs, r.toNat < 19) : Kept s s' :=
  ⟨fun q hq => h.x q fun hmem => absurd (hrs q hmem) (by omega), h.sp⟩

theorem kept_store (s : State) (a : U64) (n : Nat) (v : U64) : Kept s (s.store a n v) := ⟨fun _ _ => rfl, rfl⟩

/-- From `s` to `s'` nothing of the block's own has changed. -/
structure Steady (e : Place) (s s' : State) : Prop where
  kept : Kept s s'
  bytes : ∀ a, Guarded e a → s'.mem a = s.mem a

theorem Steady.trans {e : Place} {s s' s'' : State} (h : Steady e s s') (h' : Steady e s' s'') : Steady e s s'' :=
  ⟨h.kept.trans h'.kept, fun a ha => (h'.bytes a ha).trans (h.bytes a ha)⟩

theorem steady_of_mem {e : Place} {s s' : State} (hk : Kept s s') (hm : s'.mem = s.mem) : Steady e s s' :=
  ⟨hk, fun _ _ => by rw [hm]⟩

/-- The code `ws` makes of the CPU `c` the CPU `c'`. -/
def Does (e : Place) (c c' : Cpu) (ws : List U32) : Prop :=
  ∀ s : State, s.x 19 = e.base → Represents e.base e.ram s.mem c →
    ∃ s', Goes ws s s' ∧ Steady e s s' ∧ Represents e.base e.ram s'.mem c'

theorem does_nil (e : Place) (c : Cpu) : Does e c c [] := fun s _ hrep =>
  ⟨s, A64.goes_nil s, steady_of_mem (kept_self s) rfl, hrep⟩

theorem Does.append {e : Place} {c c' c'' : Cpu} {ws vs : List U32} (h : Does e c c' ws) (h' : Does e c' c'' vs) :
    Does e c c'' (ws ++ vs) := by
  intro s hcpu hrep
  obtain ⟨s1, hgo, hsteady, hrep1⟩ := h s hcpu hrep
  obtain ⟨s2, hgo', hsteady', hrep2⟩ := h' s1 ((hsteady.kept.x 19 (by decide)).trans hcpu) hrep1
  exact ⟨s2, hgo.lands hgo', hsteady.trans hsteady', hrep2⟩

theorem Does.congr {e : Place} {c c' d : Cpu} {ws : List U32} (h : Does e c c' ws) (hd : c' = d) : Does e c d ws := hd ▸ h

/-! ## Guest registers -/

section Registers

variable {e : Place} {c : Cpu} {s : State}

theorem goes_mov (r : Reg) (hr : r ≠ 31) (imm : U64) (s : State) : Goes (movImm (r.setWidth 32) imm) s (s.set r imm) :=
  (straight_movImm r hr imm s).goes

theorem decode_guest : ∀ i : Reg, decode (ldrXWord 0 cpuReg (xoff i)) = some (.ldrX (i.setWidth 12) 19 0) ∧
    decode (strXWord 0 cpuReg (xoff i)) = some (.strX (i.setWidth 12) 19 0) := by decide

/-- **A guest register is loaded.** -/
theorem goes_loadGuest (hrep : Represents e.base e.ram s.mem c) (h0 : c.x 0 = 0) (hcpu : s.x 19 = e.base) {r : Reg}
    (hr : r = 0 ∨ r = 1 ∨ r = 2) (i : BitVec 5) : Goes (loadGuest (r.setWidth 32) i) s (s.set r (c.x i)) := by
  rcases hr with rfl | hr
  · unfold loadGuest
    by_cases hi : i = 0
    · rw [if_pos hi, hi, h0]
      exact goes_mov 0 (by decide) 0 s
    · have hread : s.mem.read (s.base 19 + (i.setWidth 12).setWidth 64 * 8) 8 = c.x i := by
        rw [regImm_eq, ← hrep.x i, regOff_eq, ← hcpu]
        rfl
      rw [if_neg hi, ← hread]
      exact A64.goes_op (A64.decodeOp_base (decode_guest i).1) rfl
  · exact (straight_loadGuest hrep h0 hcpu hr i).goes

/-- **A value goes to a guest register.** -/
theorem goes_storeGuest (hsep : Separate e c.ram_size) (hrep : Represents e.base e.ram s.mem c)
    (hp : Placed e.base e.ram c) (hcpu : s.x 19 = e.base) {r : Reg} (hr : r = 0 ∨ r = 2) (i : BitVec 5) :
    ∃ s', Goes (storeGuest (r.setWidth 32) i) s s' ∧ Steady e s s' ∧
      Represents e.base e.ram s'.mem (c.wr i (s.x r)) := by
  unfold storeGuest
  by_cases hi : i = 0
  · rw [if_pos hi, hi, wr_zero hp.zero]
    exact ⟨s, A64.goes_nil s, steady_of_mem (kept_self s) rfl, hrep⟩
  · have haddr : s.x 19 + (i.setWidth 12).setWidth 64 * 8 = byteAt e.base (8 * i.toNat) := by
      rw [regImm_eq, hcpu]
      rfl
    have hlt := i.isLt
    rw [if_neg hi]
    refine ⟨s.store (byteAt e.base (8 * i.toNat)) 8 (s.x r), ?_,
      ⟨kept_store s _ _ _, fun a ha => hsep.write_cpu ha _ (.inl (by omega))⟩, hrep.setReg hp hi _⟩
    rw [← haddr]
    rcases hr with rfl | rfl
    · exact A64.goes_op (A64.decodeOp_base (decode_guest i).2) rfl
    · exact A64.goes_op (A64.decodeOp_base (decode_strReg i)) rfl

/-- **The pc is written from x0.** -/
theorem goes_storePc (hsep : Separate e c.ram_size) (hrep : Represents e.base e.ram s.mem c) (hp : Placed e.base e.ram c)
    (hcpu : s.x 19 = e.base) :
    ∃ s', Goes [strXWord 0 cpuReg offPc] s s' ∧ Steady e s s' ∧ s'.x = s.x ∧
      Represents e.base e.ram s'.mem { c with pc := s.x 0 } := by
  refine ⟨s.store (byteAt e.base 256) 8 (s.x 0), ?_, ⟨kept_store s _ _ _, fun a ha => hsep.write_cpu ha _ (.inl (by omega))⟩,
    rfl, hrep.setPc hp _⟩
  rw [← hcpu]
  exact A64.goes_op (A64.decodeOp_base decode_strPc) rfl

end Registers

/-! ## Values -/

section Values

variable {e : Place} {c : Cpu}

/-- The value of x0 goes to `rd`. -/
theorem does_stored (hsep : Separate e c.ram_size) (hp : Placed e.base e.ram c) {ws : List U32} {rd : BitVec 5} {v : U64}
    (h : ∀ s : State, s.x 19 = e.base → Represents e.base e.ram s.mem c →
      ∃ s', Goes ws s s' ∧ Keeps [0, 1] s s' ∧ s'.x 0 = v) :
    Does e c (c.wr rd v) (ws ++ storeGuest 0 rd) := by
  intro s hcpu hrep
  obtain ⟨s1, hgo, hkeeps, hx⟩ := h s hcpu hrep
  obtain ⟨s2, hgo', hsteady, hrep'⟩ := goes_storeGuest (r := 0) hsep (hkeeps.mem ▸ hrep) hp
    ((hkeeps.x 19 (by decide)).trans hcpu) (.inl rfl) rd
  exact ⟨s2, hgo.lands hgo', (steady_of_mem (.of_keeps hkeeps (by decide)) hkeeps.mem).trans hsteady, hx ▸ hrep'⟩

/-- The operands, what is computed of them, and the result. -/
theorem does_computed (hsep : Separate e c.ram_size) (hp : Placed e.base e.ram c) {ws : List U32} {f : U64 → U64 → U64}
    (h : Computes ws f) (rd rs1 rs2 : BitVec 5) :
    Does e c (c.wr rd (f (c.x rs1) (c.x rs2))) (loadGuest 0 rs1 ++ (loadGuest 1 rs2 ++ ws) ++ storeGuest 0 rd) := by
  refine does_stored hsep hp fun s hcpu hrep => ?_
  have hfirst := goes_loadGuest (r := 0) hrep hp.zero hcpu (.inl rfl) rs1
  have hsecond := goes_loadGuest (s := s.set 0 (c.x rs1)) (r := 1) hrep hp.zero hcpu (.inr (.inl rfl)) rs2
  obtain ⟨s', hgo, hkeeps, hx⟩ := h ((s.set 0 (c.x rs1)).set 1 (c.x rs2))
  exact ⟨s', hfirst.lands (hsecond.lands hgo),
    ((A64.keeps_set (by decide) (by decide)).set (by decide) (by decide)).trans hkeeps, hx⟩

theorem does_computedImm (hsep : Separate e c.ram_size) (hp : Placed e.base e.ram c) {ws : List U32} {f : U64 → U64}
    (h : Computes ws fun a _ => f a) (rd rs1 : BitVec 5) :
    Does e c (c.wr rd (f (c.x rs1))) (loadGuest 0 rs1 ++ ws ++ storeGuest 0 rd) := by
  refine does_stored hsep hp fun s hcpu hrep => ?_
  have hfirst := goes_loadGuest (r := 0) hrep hp.zero hcpu (.inl rfl) rs1
  obtain ⟨s', hgo, hkeeps, hx⟩ := h (s.set 0 (c.x rs1))
  exact ⟨s', hfirst.lands hgo, (A64.keeps_set (by decide) (by decide)).trans hkeeps, hx⟩

theorem does_const (hsep : Separate e c.ram_size) (hp : Placed e.base e.ram c) (rd : BitVec 5) (v : U64) :
    Does e c (c.wr rd v) (movImm 0 v ++ storeGuest 0 rd) :=
  does_stored hsep hp fun s _ _ => ⟨s.set 0 v, goes_mov 0 (by decide) v s, A64.keeps_set (by decide) (by decide), rfl⟩

end Values

/-! ## Integer instructions -/

/-- What the code of an integer instruction writes to `rd`. -/
def armValue (insn : U32) (pc : U64) (x : BitVec 5 → U64) : Option U64 :=
  match (opcode insn).toNat with
  | 0x37 => some (immU insn)
  | 0x17 => some (pc + immU insn)
  | 0x13 => some (armOpImm insn (x (rs1 insn)))
  | 0x33 => some (aluOp (funct7 insn) (funct3 insn) (x (rs1 insn)) (x (rs2 insn)))
  | 0x1B => (armOpImm32 insn ((x (rs1 insn)).setWidth 32)).map fun v => v.signExtend 64
  | 0x3B =>
    (aluOp32 (funct7 insn) (funct3 insn) ((x (rs1 insn)).setWidth 32) ((x (rs2 insn)).setWidth 32)).map fun v =>
      v.signExtend 64
  | _ => none

theorem Emits.thenStore {m : Emit Bool} {ws vs : List U32} {store : Emit Unit} (hm : Emits m ws true)
    (hstore : Emits store vs ()) :
    Emits (do if ← m then do store; return true else return false) (ws ++ vs) true := by
  have hthen : Emits (do store; return true) (vs ++ []) true := hstore.bind (emits_pure true)
  rw [List.append_nil] at hthen
  exact hm.bind hthen

theorem Emits.thenTrue {m : Emit Unit} {ws : List U32} (hm : Emits m ws ()) : Emits (do m; return true) ws true := by
  have h : Emits (do m; return true) (ws ++ []) true := hm.bind (emits_pure true)
  rwa [List.append_nil] at h

theorem Emits.answer {m : Emit Bool} {ws : List U32} (h : Emits m ws true) (k : Compile) :
    Emits (do return (ofBool (← m), k)) ws (.compiled, k) := by
  have hb : Emits (do return (ofBool (← m), k)) (ws ++ []) (.compiled, k) := h.bind (emits_pure _)
  rwa [List.append_nil] at hb

/-- The code `ws` of `m` makes of every CPU `c` the CPU `f c`, wherever it runs. -/
def Compiles (m : Emit Bool) (f : Cpu → Cpu) : Prop :=
  ∃ ws, Emits m ws true ∧ ∀ (e : Place) (c : Cpu), Separate e c.ram_size → Placed e.base e.ram c → Does e c (f c) ws

/-- An instruction that writes to x0 only has no code. -/
theorem compiles_zero {f : Cpu → U64} : Compiles (return true) fun c => c.wr 0 (f c) := by
  refine ⟨[], emits_pure true, fun e c _ hp => ?_⟩
  beta_reduce
  rw [wr_zero hp.zero]
  exact does_nil e c

theorem opCompiles_cases {rd : BitVec 5} {f3 : BitVec 3} {f7 : BitVec 7} (hrd : rd ≠ 0) (h : opCompiles rd f3 f7 = true) :
    (f7 = 1 ∧ (f3 = 0 ∨ f3 = 1 ∨ f3 = 3)) ∨ (f7 ≠ 1 ∧ (f3 = 0 ∨ f3 = 5 → f7 = 0 ∨ f7 = 0x20)) := by
  unfold opCompiles at h
  rw [if_neg hrd] at h
  by_cases h1 : f7 = 1
  · rw [if_pos h1] at h
    refine .inl ⟨h1, ?_⟩
    rcases funct3_cases f3 with rfl | rfl | rfl | rfl | rfl | rfl | rfl | rfl
    all_goals first | cases h; done | decide
  · rw [if_neg h1] at h
    refine .inr ⟨h1, ?_⟩
    rintro (rfl | rfl)
    · exact sub_cases h
    · exact sub_cases h

theorem compiles_op {rd rs1 rs2 : BitVec 5} {f3 : BitVec 3} {f7 : BitVec 7} (h : opCompiles rd f3 f7 = true) :
    Compiles (jitOp rd rs1 rs2 f3 f7) fun c => c.wr rd (aluOp f7 f3 (c.x rs1) (c.x rs2)) := by
  unfold jitOp
  by_cases hrd : rd = 0
  · rw [if_pos hrd, hrd]
    exact compiles_zero
  · rw [if_neg hrd]
    have hmid : ∃ ws, Emits (if f7 = 1 then jitOpM f3 else jitOpBase f3 f7) ws true ∧ Computes ws (aluOp f7 f3) := by
      rcases opCompiles_cases hrd h with ⟨h1, h3⟩ | ⟨h1, h3⟩
      · rw [if_pos h1, h1]
        exact computes_opM h3
      · rw [if_neg h1]
        exact computes_opBase h1 h3
    obtain ⟨ws, hemit, hcomp⟩ := hmid
    refine ⟨_, (emits_loadGuest 0 rs1).bind <| (emits_loadGuest 1 rs2).bind <|
      hemit.thenStore (emits_storeGuest 0 rd), fun e c hsep hp => ?_⟩
    have hdoes := does_computed hsep hp hcomp rd rs1 rs2
    simpa only [List.append_assoc] using hdoes

theorem compiles_opImm (insn : U32) (rd rs1 : BitVec 5) :
    Compiles (jitOpImm insn rd rs1 (funct3 insn)) fun c => c.wr rd (armOpImm insn (c.x rs1)) := by
  unfold jitOpImm
  by_cases hrd : rd = 0
  · rw [if_pos hrd, hrd]
    exact compiles_zero
  · rw [if_neg hrd]
    obtain ⟨ws, hemit, hcomp⟩ := computes_opImm insn
    refine ⟨_, (emits_loadGuest 0 rs1).bind <| hemit.bind <| (emits_storeGuest 0 rd).thenTrue, fun e c hsep hp => ?_⟩
    have hdoes := does_computedImm hsep hp hcomp rd rs1
    simpa only [List.append_assoc] using hdoes

theorem Emits.thenExtend {m : Emit Bool} {ws : List U32} (hm : Emits m ws true) (rd : BitVec 5) :
    Emits (do if ← m then do emitSxtw 0 0; emitStoreGuest 0 rd; return true else return false)
      (ws ++ ([sxtwWord 0 0] ++ storeGuest 0 rd)) true := by
  have hthen : Emits (do emitSxtw 0 0; emitStoreGuest 0 rd; return true) ([sxtwWord 0 0] ++ storeGuest 0 rd) true :=
    (emits_emit _).bind (emits_storeGuest 0 rd).thenTrue
  exact hm.bind hthen

theorem compiles_op32 {rd rs1 rs2 : BitVec 5} {f3 : BitVec 3} {f7 : BitVec 7} (h : op32Compiles rd f3 f7 = true) :
    Compiles (jitOp32 rd rs1 rs2 f3 f7) fun c =>
      c.wr rd (((aluOp32 f7 f3 ((c.x rs1).setWidth 32) ((c.x rs2).setWidth 32)).map fun v => v.signExtend 64).getD 0) := by
  unfold jitOp32
  by_cases hrd : rd = 0
  · rw [if_pos hrd, hrd]
    exact compiles_zero
  · rw [if_neg hrd]
    obtain ⟨w, f, hemit, hval, hcomp⟩ := computes_op32 hrd h
    refine ⟨_, (emits_loadGuest 0 rs1).bind <| (emits_loadGuest 1 rs2).bind <| hemit.thenExtend rd, fun e c hsep hp => ?_⟩
    have hdoes := does_computed hsep hp hcomp rd rs1 rs2
    beta_reduce
    rw [hval, Option.map_some, Option.getD_some]
    simpa only [List.append_assoc, List.cons_append, List.nil_append] using hdoes

theorem compiles_opImm32 {insn : U32} {rd rs1 : BitVec 5} (h : opImm32Compiles rd (funct3 insn) = true) :
    Compiles (jitOpImm32 insn rd rs1 (funct3 insn)) fun c =>
      c.wr rd (((armOpImm32 insn ((c.x rs1).setWidth 32)).map fun v => v.signExtend 64).getD 0) := by
  unfold jitOpImm32
  by_cases hrd : rd = 0
  · rw [if_pos hrd, hrd]
    exact compiles_zero
  · rw [if_neg hrd]
    obtain ⟨ws, f, hemit, hval, hcomp⟩ := computes_opImm32 insn hrd h
    refine ⟨_, (emits_loadGuest 0 rs1).bind <| hemit.thenExtend rd, fun e c hsep hp => ?_⟩
    have hdoes := does_computedImm hsep hp hcomp rd rs1
    beta_reduce
    rw [hval, Option.map_some, Option.getD_some]
    simpa only [List.append_assoc, List.cons_append, List.nil_append] using hdoes

theorem compiles_const (rd : BitVec 5) (v : U64) :
    Compiles (if rd = 0 then return true else do emitMovImm64 0 v; emitStoreGuest 0 rd; return true) fun c => c.wr rd v := by
  by_cases hrd : rd = 0
  · rw [if_pos hrd, hrd]
    exact compiles_zero
  · rw [if_neg hrd]
    exact ⟨_, (emits_movImm64 0 v).bind (emits_storeGuest 0 rd).thenTrue, fun e c hsep hp => does_const hsep hp rd v⟩

/-! ## Jumps -/

theorem does_storePc {e : Place} {c : Cpu} (hsep : Separate e c.ram_size) (hp : Placed e.base e.ram c) (target : U64) :
    Does e c { c with pc := target } (movImm 0 target ++ [strXWord 0 cpuReg offPc]) := by
  intro s hcpu hrep
  obtain ⟨s', hgo, hsteady, -, hrep'⟩ := goes_storePc (s := s.set 0 target) hsep hrep hp hcpu
  exact ⟨s', (goes_mov 0 (by decide) target s).lands hgo,
    (steady_of_mem (kept_set (by decide) s _) (A64.set_mem (by decide))).trans hsteady, hrep'⟩

theorem compiles_jal (insn : U32) (rd : BitVec 5) (pc size : U64) :
    Compiles (jitJal insn rd pc size) fun c => { c.wr rd (pc + size) with pc := pc + immJ insn } := by
  have htarget : Emits (do emitMovImm64 0 (pc + immJ insn); emitStrX 0 cpuReg offPc; return true) _ true :=
    (emits_movImm64 0 (pc + immJ insn)).bind ((emits_emit _).bind (emits_pure true))
  unfold jitJal
  by_cases hrd : rd = 0
  · rw [if_neg (not_not.2 hrd), hrd]
    refine ⟨_, htarget, fun e c hsep hp => ?_⟩
    beta_reduce
    rw [wr_zero hp.zero]
    exact does_storePc hsep hp _
  · rw [if_pos hrd]
    refine ⟨_, (emits_movImm64 0 (pc + size)).bind ((emits_storeGuest 0 rd).bind htarget), fun e c hsep hp => ?_⟩
    have hlink := (does_const hsep hp rd (pc + size)).append
      (does_storePc (c := c.wr rd (pc + size)) hsep ⟨hp.apart, hp.nonNull, rfl, hp.pages⟩ (pc + immJ insn))
    rw [List.append_assoc] at hlink
    exact hlink

/-- The target of a `jalr`, into the pc; the link in x2 stays. -/
theorem goes_jalrTarget {e : Place} {c : Cpu} {s : State} (hsep : Separate e c.ram_size) (hp : Placed e.base e.ram c)
    (hcpu : s.x 19 = e.base) (hrep : Represents e.base e.ram s.mem c) (v : BitVec 12) (rs1 : BitVec 5) :
    ∃ s', Goes (loadGuest 0 rs1 ++ ([addSimm 0 0 (v.signExtend 64)] ++ (movImm 1 (~~~1) ++ [0x8A010000])) ++
        [strXWord 0 cpuReg offPc]) s s' ∧ Steady e s s' ∧ s'.x 2 = s.x 2 ∧
      Represents e.base e.ram s'.mem { c with pc := (c.x rs1 + v.signExtend 64) &&& ~~~1 } := by
  have hfirst := goes_loadGuest (r := 0) hrep hp.zero hcpu (.inl rfl) rs1
  have hcomp := (computes_addSimm v).then (computes_logic.2.2.withImm (~~~1)) fun _ _ _ => rfl
  obtain ⟨s1, hgo, hkeeps, hx⟩ := hcomp (s.set 0 (c.x rs1))
  have hkeeps' : Keeps [0, 1] s s1 := (A64.keeps_set (by decide) (by decide)).trans hkeeps
  obtain ⟨s2, hgo', hsteady, hsame, hrep'⟩ := goes_storePc (s := s1) hsep (hkeeps'.mem ▸ hrep) hp
    ((hkeeps'.x 19 (by decide)).trans hcpu)
  have hgo1 : Goes _ s s1 := hfirst.lands hgo
  refine ⟨s2, hgo1.lands hgo', (steady_of_mem (.of_keeps hkeeps' (by decide)) hkeeps'.mem).trans hsteady, ?_, ?_⟩
  · rw [hsame]
    exact hkeeps'.x 2 (by decide)
  · rw [hx] at hrep'
    exact hrep'

theorem compiles_jalr (insn : U32) (rd rs1 : BitVec 5) (pc size : U64) :
    Compiles (jitJalr insn rd rs1 pc size) fun c =>
      Cpu.wr { c with pc := (c.x rs1 + immI insn) &&& ~~~1 } rd (pc + size) := by
  have htarget : ∀ {m : Emit Bool} {ws : List U32}, Emits m ws true → Emits (do
      emitLoadGuest 0 rs1
      emitAddSimm 0 0 (immI insn)
      emitMovImm64 1 (~~~1)
      emit 0x8A010000
      emitStrX 0 cpuReg offPc
      m) _ true := fun hm => (emits_loadGuest 0 rs1).bind <| (emits_addSimm 0 0 (insn.extractLsb' 20 12)).bind <|
        (emits_movImm64 1 (~~~1)).bind <| (emits_emit _).bind <| (emits_emit _).bind hm
  unfold jitJalr
  by_cases hrd : rd = 0
  · rw [if_neg (not_not.2 hrd), if_neg (not_not.2 hrd), hrd]
    refine ⟨_, htarget (emits_pure true), fun e c hsep hp s hcpu hrep => ?_⟩
    obtain ⟨s', hgo, hsteady, -, hrep'⟩ := goes_jalrTarget hsep hp hcpu hrep (insn.extractLsb' 20 12) rs1
    beta_reduce
    rw [wr_zero (c := { c with pc := (c.x rs1 + immI insn) &&& ~~~1 }) hp.zero]
    refine ⟨s', ?_, hsteady, hrep'⟩
    simpa only [List.append_assoc, List.append_nil] using hgo
  · rw [if_pos hrd, if_pos hrd]
    refine ⟨_, (emits_movImm64 2 (pc + size)).bind (htarget (emits_storeGuest 2 rd).thenTrue),
      fun e c hsep hp s hcpu hrep => ?_⟩
    have hlink := goes_mov 2 (by decide) (pc + size) s
    obtain ⟨s1, hgo, hsteady, hx, hrep1⟩ := goes_jalrTarget (s := s.set 2 (pc + size)) hsep hp hcpu hrep
      (insn.extractLsb' 20 12) rs1
    obtain ⟨s2, hgo', hsteady', hrep2⟩ := goes_storeGuest (c := { c with pc := (c.x rs1 + immI insn) &&& ~~~1 }) (r := 2)
      hsep hrep1 (hp.setPc _) ((hsteady.kept.x 19 (by decide)).trans hcpu) (.inr rfl) rd
    rw [hx] at hrep2
    refine ⟨s2, ?_, (steady_of_mem (kept_set (by decide) s _) (A64.set_mem (by decide))).trans (hsteady.trans hsteady'), hrep2⟩
    have hall := hlink.lands (hgo.lands hgo')
    simp only [List.append_assoc] at hall
    exact hall

/-! ## One definition for all -/

/-- A guest instruction that calls nothing, as it is compiled. -/
def armPlain (t : GuestInsn) (c : Cpu) : Cpu :=
  match (opcode t.insn).toNat with
  | 0x0F => c
  | 0x6F => { c.wr (rd t.insn) (t.pc + t.size) with pc := t.pc + immJ t.insn }
  | 0x67 => Cpu.wr { c with pc := (c.x (rs1 t.insn) + immI t.insn) &&& ~~~1 } (rd t.insn) (t.pc + t.size)
  | _ => c.wr (rd t.insn) ((armValue t.insn t.pc c.x).getD 0)

theorem ofBool_compiled {ok : Bool} (h : ofBool ok = .compiled) : ok = true := by
  cases ok with
  | false => cases h
  | true => rfl

/-- **The code of an instruction that calls nothing does what `armPlain` says.** -/
theorem compiles_plain (h : Helpers) (k : Compile) {insn : U32} (size : U64) (hv : verdict insn = .compiled)
    (hload : opcode insn ≠ 0x03) (hstore : opcode insn ≠ 0x23) :
    ∃ ws, Emits (k.insn h insn size) ws (.compiled, { k with block_ended := k.block_ended || endsBlock insn }) ∧
      ∀ (e : Place) (c : Cpu), Separate e c.ram_size → Placed e.base e.ram c → Does e c (armPlain ⟨k.pc, insn, size⟩ c) ws := by
  have hl : (opcode insn).toNat ≠ 0x03 := fun e => hload (BitVec.eq_of_toNat_eq e)
  have hs : (opcode insn).toNat ≠ 0x23 := fun e => hstore (BitVec.eq_of_toNat_eq e)
  have hkeep : ∀ {m : Emit Bool} {f : Cpu → Cpu}, Compiles m f → ∃ ws, Emits (do return (ofBool (← m), k)) ws
      (.compiled, { k with block_ended := k.block_ended || false }) ∧
      ∀ (e : Place) (c : Cpu), Separate e c.ram_size → Placed e.base e.ram c → Does e c (f c) ws := by
    rintro m f ⟨ws, hemit, hdoes⟩
    rw [Bool.or_false]
    exact ⟨ws, hemit.answer k, hdoes⟩
  have hjump : ∀ {m : Emit Bool} {f : Cpu → Cpu}, Compiles m f →
      ∃ ws, Emits (do return (ofBool (← m), { k with block_ended := true })) ws
        (.compiled, { k with block_ended := k.block_ended || true }) ∧
      ∀ (e : Place) (c : Cpu), Separate e c.ram_size → Placed e.base e.ram c → Does e c (f c) ws := by
    rintro m f ⟨ws, hemit, hdoes⟩
    rw [Bool.or_true]
    exact ⟨ws, hemit.answer { k with block_ended := true }, hdoes⟩
  unfold verdict at hv
  unfold Compile.insn endsBlock armPlain armValue
  dsimp only
  generalize (opcode insn).toNat = op at hl hs hv ⊢
  split
  case h_1 => exact hkeep (compiles_op (ofBool_compiled hv))
  case h_2 => exact hkeep (compiles_opImm insn _ _)
  case h_3 => exact hkeep (compiles_op32 (ofBool_compiled hv))
  case h_4 => exact hkeep (compiles_opImm32 (ofBool_compiled hv))
  case h_5 => exact hkeep (compiles_const _ _)
  case h_6 => exact hkeep (compiles_const _ _)
  case h_7 =>
    have hfence : Compiles (jitFence insn) fun c => c := by
      refine ⟨[], ?_, fun e c _ _ => does_nil e c⟩
      unfold jitFence
      rw [ofBool_compiled hv]
      exact emits_pure true
    exact hkeep hfence
  case h_8 => exact absurd rfl hl
  case h_9 => exact absurd rfl hs
  case h_10 => exact hjump (compiles_jal insn _ _ _)
  case h_11 => exact hjump (compiles_jalr insn _ _ _ _)
  case h_12 => cases hv
  case h_13 => simp [*] at hv

/-! ## Branches -/

/-- One side of a branch: the pc, and a jump to the epilogue. -/
def sideWords (target : U64) (b : U32) : List U32 := movImm 0 target ++ [strXWord 0 cpuReg offPc, b]

/-- The words of a branch, before the epilogue. -/
def branchCode (t : GuestInsn) : List U32 :=
  let compare := loadGuest 0 (rs1 t.insn) ++ (loadGuest 1 (rs2 t.insn) ++ [cmpWord 0 1])
  match branchCond (funct3 t.insn) with
  | none => compare
  | some cond =>
    let next := t.pc + t.size
    let target := t.pc + immB t.insn
    compare ++ (bcondWord cond (movWords next + 3) ::
      (sideWords next (bWord (movWords target + 3)) ++ sideWords target (bWord 1)))

/-- A branch as it is compiled: where there is no such branch, the pc stays. -/
def armBranch (t : GuestInsn) (c : Cpu) : Cpu :=
  match branchTaken (funct3 t.insn) (c.x (rs1 t.insn)) (c.x (rs2 t.insn)) with
  | none => c
  | some taken => { c with pc := if taken then t.pc + immB t.insn else t.pc + t.size }

theorem sideWords_length (target : U64) (b : U32) : (sideWords target b).length = movWords target + 2 := by
  simp [sideWords, movImm_length]

/-- The condition of the host for that of the guest. -/
theorem branchCond_holds (f3 : BitVec 3) :
    (branchCond f3 = none ∧ ∀ a b, branchTaken f3 a b = none) ∨
      ∃ cond : BitVec 4, branchCond f3 = some (cond.setWidth 32) ∧
        ∀ (s : State) a b, branchTaken f3 a b = some ((s.compare a b).holds cond) := by
  rcases funct3_cases f3 with rfl | rfl | rfl | rfl | rfl | rfl | rfl | rfl
  · exact .inr ⟨0, rfl, fun _ _ _ => rfl⟩
  · exact .inr ⟨1, rfl, fun _ _ _ => rfl⟩
  · exact .inl ⟨rfl, fun _ _ => rfl⟩
  · exact .inl ⟨rfl, fun _ _ => rfl⟩
  · exact .inr ⟨11, rfl, fun s a b => congrArg some (A64.compare_lt s a b).symm⟩
  · exact .inr ⟨10, rfl, fun s a b => congrArg some (A64.compare_ge s a b).symm⟩
  · exact .inr ⟨3, rfl, fun s a b => congrArg some (A64.compare_lo s a b).symm⟩
  · exact .inr ⟨2, rfl, fun s a b => congrArg some (A64.compare_hs s a b).symm⟩

theorem decode_bcondWord : ∀ (cond : BitVec 4) (d : Fin 8), decode (bcondWord (cond.setWidth 32) d) =
    some (.bcond (BitVec.ofNat 19 d) cond) ∧ (BitVec.ofNat 19 d).toInt = d := by decide

theorem decode_bWord : ∀ d : Fin 8, decode (bWord d) = some (.b (BitVec.ofNat 26 d)) ∧ (BitVec.ofNat 26 d).toInt = d := by
  decide

section Branch

variable {e : Place} {c : Cpu} {s : State}

/-- **One side of a branch** writes the pc and goes on `k` words behind its end. -/
theorem lands_side (hsep : Separate e c.ram_size) (hp : Placed e.base e.ram c) (hcpu : s.x 19 = e.base)
    (hrep : Represents e.base e.ram s.mem c) (target : U64) {k : Nat} (hk : k < 7) :
    ∃ s', Lands (sideWords target (bWord (k + 1))) s s' k ∧ Steady e s s' ∧
      Represents e.base e.ram s'.mem { c with pc := target } := by
  obtain ⟨s', hgo, hsteady, hrep'⟩ := does_storePc hsep hp target s hcpu hrep
  obtain ⟨hdecode, hint⟩ := decode_bWord ⟨k + 1, by omega⟩
  have hjump : Lands [bWord (k + 1)] s' s' k := A64.lands_b hdecode (hint.trans (by push_cast; rfl)) s'
  have hall := hgo.lands hjump
  rw [List.append_assoc] at hall
  exact ⟨s', hall, hsteady, hrep'⟩

theorem goes_compare (hp : Placed e.base e.ram c) (hcpu : s.x 19 = e.base) (hrep : Represents e.base e.ram s.mem c)
    (rs1 rs2 : BitVec 5) :
    ∃ s', Goes (loadGuest 0 rs1 ++ (loadGuest 1 rs2 ++ [cmpWord 0 1])) s s' ∧ Keeps [0, 1] s s' ∧
      ∃ t : State, s' = t.compare (c.x rs1) (c.x rs2) := by
  have hfirst := goes_loadGuest (r := 0) hrep hp.zero hcpu (.inl rfl) rs1
  have hsecond := goes_loadGuest (s := s.set 0 (c.x rs1)) (r := 1) hrep hp.zero hcpu (.inr (.inl rfl)) rs2
  have hcmp : decodeOp (cmpWord 0 1) = some (.base (.subs 1 0 31)) := by decide
  let s2 := (s.set 0 (c.x rs1)).set 1 (c.x rs2)
  have hcompare : Goes [cmpWord 0 1] s2 (s2.compare (c.x rs1) (c.x rs2)) := A64.goes_op hcmp rfl
  exact ⟨_, hfirst.lands (hsecond.lands hcompare),
    ((A64.keeps_set (by decide) (by decide)).set (by decide) (by decide)).trans A64.keeps_compare, s2, rfl⟩

theorem does_branch (hsep : Separate e c.ram_size) (hp : Placed e.base e.ram c) (t : GuestInsn) :
    Does e c (armBranch t c) (branchCode t) := by
  intro s hcpu hrep
  obtain ⟨s1, hgo, hkeeps, s0, hflags⟩ := goes_compare hp hcpu hrep (rs1 t.insn) (rs2 t.insn)
  have hcpu1 : s1.x 19 = e.base := (hkeeps.x 19 (by decide)).trans hcpu
  have hsteady1 : Steady e s s1 := steady_of_mem (.of_keeps hkeeps (by decide)) hkeeps.mem
  have hrep1 : Represents e.base e.ram s1.mem c := hkeeps.mem ▸ hrep
  unfold armBranch branchCode
  rcases branchCond_holds (funct3 t.insn) with ⟨hnone, htaken⟩ | ⟨cond, hsome, htaken⟩
  · rw [hnone, htaken]
    exact ⟨s1, hgo, hsteady1, hrep1⟩
  · have hholds := htaken s0 (c.x (rs1 t.insn)) (c.x (rs2 t.insn))
    rw [← hflags] at hholds
    rw [hsome, hholds]
    dsimp only
    generalize t.pc + t.size = next
    generalize t.pc + immB t.insn = target
    have hnext := movWords_le next
    have htgt := movWords_le target
    obtain ⟨hdecode, hint⟩ := decode_bcondWord cond ⟨movWords next + 3, by omega⟩
    have hbranch : Lands [bcondWord (cond.setWidth 32) (movWords next + 3)] s1 s1
        (if s1.holds cond then movWords next + 2 else 0) := A64.lands_bcond hdecode (hint.trans (by push_cast; rfl)) s1
    cases htake : s1.holds cond with
    | true =>
      rw [htake, if_pos rfl, ← sideWords_length next (bWord (movWords target + 3))] at hbranch
      obtain ⟨s2, hside, hsteady2, hrep2⟩ := lands_side (k := 0) hsep hp hcpu1 hrep1 target (by decide)
      have hover : Goes _ s1 s1 := Lands.over (d := 0) hbranch
      have hrest := hover.lands hside
      rw [List.append_assoc] at hrest
      exact ⟨s2, hgo.lands hrest, hsteady1.trans hsteady2, hrep2⟩
    | false =>
      rw [htake] at hbranch
      obtain ⟨s2, hside, hsteady2, hrep2⟩ := lands_side (k := movWords target + 2) hsep hp hcpu1 hrep1 next (by omega)
      rw [← sideWords_length target (bWord 1)] at hside
      have hover : Goes _ s1 s2 := Lands.over (d := 0) hside
      have hfall : Goes _ s1 s1 := hbranch
      have hall : Goes _ s s2 := hgo.lands (hfall.lands hover)
      rw [sideWords_length] at hall
      exact ⟨s2, hall, hsteady1.trans hsteady2, hrep2⟩

end Branch

end Arm64
end PgLinux
