import PgLinux.TraceMixing
/-!
# Interception — console writes that the tracer answers

A `write` or `writev` to the console is answered with a count at the exit stop, after the bytes have gone to the console at
the entry stop.  Between the two the loop serves the other processes.
-/
namespace PgLinux

/-! ## The memory of a process -/

structure ChildMem where
  mem : Mem
  mapped : U64 → Prop

def ChildMem.Valid (m : ChildMem) (addr len : U64) : Prop := ∀ i, i < len.toNat → m.mapped (addr + BitVec.ofNat 64 i)

def ChildMem.bytes (m : ChildMem) (addr len : U64) : List U8 :=
  (List.range len.toNat).map fun i => m.mem (addr + BitVec.ofNat 64 i)

@[simp] theorem ChildMem.length_bytes (m : ChildMem) (addr len : U64) : (m.bytes addr len).length = len.toNat := by
  simp [ChildMem.bytes]

theorem ChildMem.Valid.mono {m : ChildMem} {addr len len' : U64} (h : m.Valid addr len) (hle : len' ≤ len) :
    m.Valid addr len' := fun i hi => h i (Nat.lt_of_lt_of_le hi hle)

/-- The beginning of a buffer. -/
theorem ChildMem.bytes_take (m : ChildMem) (addr : U64) {len len' : U64} (hle : len' ≤ len) :
    m.bytes addr len' = (m.bytes addr len).take len'.toNat := by
  have hmin : min len'.toNat len.toNat = len'.toNat := Nat.min_eq_left hle
  unfold ChildMem.bytes
  rw [← List.map_take, List.take_range, hmin]

/-- `process_vm_readv` of a valid range reads all of it. -/
structure Stopped.Reads (ch : Stopped) (m : ChildMem) : Prop where
  count : ∀ k addr len, m.Valid addr len → len ≤ 4096 → (ch.readv k addr len).1 = len
  byte : ∀ k addr len i, m.Valid addr len → len ≤ 4096 → i < len.toNat →
    (ch.readv k addr len).2 (BitVec.ofNat 64 i) = m.mem (addr + BitVec.ofNat 64 i)

/-- Entry `i` of an `iovec` array, and the buffer that it names. -/
def iovecAt (iov_addr : U64) (i : Nat) : U64 := iov_addr + BitVec.ofNat 64 (i * 16)
def ChildMem.iovBase (m : ChildMem) (iov : U64) : U64 := m.mem.read iov 8
def ChildMem.iovLen (m : ChildMem) (iov : U64) : U64 := m.mem.read (iov + 8) 8
def ChildMem.iovBytes (m : ChildMem) (iov : U64) : List U8 := m.bytes (m.iovBase iov) (m.iovLen iov)

structure ChildMem.IovValid (m : ChildMem) (iov : U64) : Prop where
  base : m.Valid iov 8
  len : m.Valid (iov + 8) 8
  buffer : m.Valid (m.iovBase iov) (m.iovLen iov)

/-! ## What is asked, and what is answered -/

/-- `sizeof(buf)`. -/
def bufSize : Nat := 4096

/-- A write to the console with valid buffers. -/
inductive Requests (m : ChildMem) (r : Aarch64Regs) : List (List U8) → Prop
  | write (hnr : r.x 8 = Sys.write) (hfd : Tracer.isConsoleFd (r.x 0) = true) (hbuf : m.Valid (r.x 1) (r.x 2)) :
    Requests m r [m.bytes (r.x 1) (r.x 2)]
  | writev (hnr : r.x 8 = Sys.writev) (hfd : Tracer.isConsoleFd (r.x 0) = true)
    (hbufs : ∀ i, i < (r.x 2).toNat → m.IovValid (iovecAt (r.x 1) i)) :
    Requests m r ((List.range (r.x 2).toNat).map fun i => m.iovBytes (iovecAt (r.x 1) i))

/-- **The answer is a count, and the bytes passed on are that many, from the first on.** -/
structure Reported (bufs : List (List U8)) (sent : List U8) (x0 : U64) : Prop where
  nonneg : 0 ≤ x0.toInt
  le : x0.toInt.toNat ≤ bufs.flatten.length
  sent : sent = bufs.flatten.take x0.toInt.toNat

/-- A buffer that the `writev` loop passes on. -/
def passable (b : List U8) : Bool := decide (0 < b.length) && decide (b.length ≤ bufSize)

/-- What is passed on after a buffer that is too long repeats what has been left out. -/
def GapFree : List (List U8) → Prop
  | [] => True
  | b :: bufs => if b.length ≤ bufSize then GapFree bufs else (bufs.filter passable).flatten <+: b ++ bufs.flatten

/-- The passes of the loop: `i < iovcnt && i < 16`, on an `int`. -/
def iovPasses (x2 : U64) : Nat := min (x2.setWidth 32).toInt.toNat 16

/-- A `write` of some bytes, or a `writev` that leaves no gap. -/
def Conveyed (r : Aarch64Regs) (bufs : List (List U8)) : Prop :=
  if r.x 8 = Sys.write then bufs.flatten ≠ [] else GapFree (bufs.take (iovPasses (r.x 2)))

/-! ## Prefixes -/

theorem filter_passable_length (bufs : List (List U8)) : (bufs.filter passable).flatten.length ≤ bufs.flatten.length := by
  induction bufs with
  | nil => exact Nat.le_refl 0
  | cons b bufs ih =>
    rw [List.filter_cons]
    split
    · simpa using ih
    · rw [List.flatten_cons, List.length_append]
      omega

/-- **What is passed on is a prefix exactly when it has no gap.** -/
theorem passed_prefix_iff (rest : List U8) (bufs : List (List U8)) :
    (bufs.filter passable).flatten <+: bufs.flatten ++ rest ↔ GapFree bufs := by
  induction bufs with
  | nil => simp [GapFree]
  | cons b bufs ih =>
    unfold GapFree
    by_cases hlen : b.length ≤ bufSize
    · have hhead : ((b :: bufs).filter passable).flatten = b ++ (bufs.filter passable).flatten := by
        rw [List.filter_cons]
        split
        · rfl
        next hno =>
          have hempty : b = [] := by simpa [passable, hlen] using hno
          rw [hempty, List.nil_append]
      rw [if_pos hlen, hhead, List.flatten_cons, List.append_assoc, List.prefix_append_right_inj, ih]
    · have hskip : (b :: bufs).filter passable = bufs.filter passable := by
        rw [List.filter_cons, if_neg]
        simp [passable, hlen]
      have hshort : (bufs.filter passable).flatten.length ≤ (b ++ bufs.flatten).length := by
        have := filter_passable_length bufs
        rw [List.length_append]
        omega
      rw [if_neg hlen, hskip, List.flatten_cons]
      constructor
      · intro h
        exact List.prefix_of_prefix_length_le h (List.prefix_append _ _) hshort
      · intro h
        exact h.trans (List.prefix_append _ _)

theorem passed_le (bufs : List (List U8)) : (bufs.filter passable).flatten.length ≤ bufs.length * bufSize := by
  induction bufs with
  | nil => exact Nat.le_refl 0
  | cons b bufs ih =>
    rw [List.filter_cons, List.length_cons, Nat.succ_mul]
    split
    next hpass =>
      have hb : b.length ≤ bufSize := by
        simp only [passable, Bool.and_eq_true, decide_eq_true_eq] at hpass
        exact hpass.2
      rw [List.flatten_cons, List.length_append]
      omega
    next => omega

/-- A small count is the `long` that it is written as. -/
theorem retval_toInt {n : Nat} (h : n ≤ 2 ^ 16) : (BitVec.ofNat 64 n).toInt = n := by
  have hn : (BitVec.ofNat 64 n).toNat = n := Nat.mod_eq_of_lt (by omega)
  rw [BitVec.toInt_eq_toNat_of_lt (by omega), hn]

/-- A count that is answered is reported when the bytes are a prefix. -/
theorem reported_count_iff {bufs : List (List U8)} {sent : List U8} (hlen : sent.length ≤ 2 ^ 16) :
    Reported bufs sent (BitVec.ofNat 64 sent.length) ↔ sent <+: bufs.flatten := by
  have hcount := retval_toInt hlen
  constructor
  · intro h
    have hsent := h.sent
    rw [hcount, Int.toNat_natCast] at hsent
    exact List.prefix_iff_eq_take.2 hsent
  · intro h
    refine ⟨by rw [hcount]; omega, ?_, ?_⟩
    · rw [hcount, Int.toNat_natCast]
      exact h.length_le
    · rw [hcount, Int.toNat_natCast]
      exact List.prefix_iff_eq_take.1 h

/-! ## The two calls -/

section Calls

variable {ch : Stopped} {m : ChildMem} (hm : ch.Reads m)
include hm

theorem readv_bytes {addr len : U64} (hv : m.Valid addr len) (hle : len ≤ 4096) (k : Nat) :
    ((List.range len.toNat).map fun i => (ch.readv k addr len).2 (BitVec.ofNat 64 i)) = m.bytes addr len := by
  refine List.map_congr_left fun i hi => ?_
  exact hm.byte k addr len i hv hle (List.mem_range.1 hi)

theorem readv_long {addr : U64} (hv : m.Valid addr 8) (k : Nat) : (ch.readv k addr 8).2.read 0 8 = m.mem.read addr 8 := by
  refine Mem.read_shift 8 0 addr fun i hi => ?_
  have hzero : (0 : U64) + BitVec.ofNat 64 i = BitVec.ofNat 64 i := BitVec.zero_add _
  rw [hzero]
  exact hm.byte k addr 8 i hv (by decide) hi

/-- **A `write` passes on its first 4096 bytes**; of none, it is an error. -/
theorem handleWrite_eq {s : Tracer} (hv : m.Valid (s.regs.x 1) (s.regs.x 2)) :
    let sent := (m.bytes (s.regs.x 1) (s.regs.x 2)).take bufSize
    (Tracer.handleWrite ch s).console = s.console ++ sent ∧
      (Tracer.handleWrite ch s).handled_retval = if sent = [] then -14 else BitVec.ofNat 64 sent.length := by
  obtain ⟨n, hn⟩ : ∃ n, n = Tracer.consoleWriteCount (s.regs.x 2) := ⟨_, rfl⟩
  have hle : n ≤ s.regs.x 2 ∧ n ≤ 4096 ∧ n.toNat = min bufSize (s.regs.x 2).toNat := by
    have h4096 : (4096 : U64).toNat = bufSize := rfl
    rw [hn, BitVec.le_def, BitVec.le_def, h4096]
    unfold Tracer.consoleWriteCount
    split
    next h =>
      rw [BitVec.lt_def, h4096] at h
      omega
    next h =>
      rw [BitVec.lt_def, h4096] at h
      omega
  obtain ⟨hcount, hsmall, hmin⟩ := hle
  have hvalid := hv.mono hcount
  have hread := hm.count 0 (s.regs.x 1) n hvalid hsmall
  have hbuf := readv_bytes hm hvalid hsmall 0
  have hsent : m.bytes (s.regs.x 1) n = (m.bytes (s.regs.x 1) (s.regs.x 2)).take bufSize := by
    rw [m.bytes_take _ hcount, hmin, ← m.length_bytes (s.regs.x 1) (s.regs.x 2), ← List.take_eq_take_min]
  have hpos : 0 < n.toInt ↔ m.bytes (s.regs.x 1) n ≠ [] := by
    have h4096 : n.toNat ≤ 4096 := hsmall
    rw [BitVec.toInt_eq_toNat_of_lt (by omega), ← List.length_pos_iff, m.length_bytes]
    omega
  unfold Tracer.handleWrite
  dsimp only
  rw [← hn, hread, ← hsent]
  by_cases hempty : m.bytes (s.regs.x 1) n = []
  · rw [if_neg (fun h => hpos.1 h hempty), if_pos hempty, hempty]
    exact ⟨(List.append_nil _).symm, rfl⟩
  · rw [if_pos (hpos.2 hempty), if_neg hempty, m.length_bytes]
    refine ⟨congrArg (s.console ++ ·) hbuf, ?_⟩
    exact (BitVec.ofNat_toNat 64 n).symm

/-- A pass of the loop passes its buffer on if it is not empty and not too long. -/
theorem handleIovec_eq {iov_addr : U64} {i : Nat} (hv : m.IovValid (iovecAt iov_addr i)) (s : Tracer) :
    let b := m.iovBytes (iovecAt iov_addr i)
    (Tracer.handleIovec ch iov_addr s i).console = s.console ++ (if passable b then b else []) ∧
      (Tracer.handleIovec ch iov_addr s i).handled_retval =
        s.handled_retval + BitVec.ofNat 64 (if passable b then b else []).length := by
  have hbase : (ch.readv (3 * i) (iov_addr + BitVec.ofNat 64 (i * 16)) 8).2.read 0 8 = m.iovBase (iovecAt iov_addr i) :=
    readv_long hm hv.base _
  have hlen : (ch.readv (3 * i + 1) (iov_addr + BitVec.ofNat 64 (i * 16) + 8) 8).2.read 0 8 = m.iovLen (iovecAt iov_addr i) :=
    readv_long hm hv.len _
  obtain ⟨len, hl⟩ : ∃ len, len = m.iovLen (iovecAt iov_addr i) := ⟨_, rfl⟩
  have hpass : passable (m.iovBytes (iovecAt iov_addr i)) = true ↔ 0 < len ∧ len ≤ 4096 := by
    have h4096 : (4096 : U64).toNat = bufSize := rfl
    unfold passable ChildMem.iovBytes
    rw [m.length_bytes, Bool.and_eq_true, decide_eq_true_eq, decide_eq_true_eq, ← hl, BitVec.le_def, h4096]
    rfl
  unfold Tracer.handleIovec
  dsimp only
  rw [hbase, hlen, ← hl]
  by_cases hp : 0 < len ∧ len ≤ 4096
  · simp only [if_pos hp, if_pos (hpass.2 hp)]
    have hvalid : m.Valid (m.iovBase (iovecAt iov_addr i)) len := hl ▸ hv.buffer
    have hbytes : m.iovBytes (iovecAt iov_addr i) = m.bytes (m.iovBase (iovecAt iov_addr i)) len := by
      rw [hl]
      rfl
    rw [hbytes, m.length_bytes]
    refine ⟨congrArg (s.console ++ ·) (readv_bytes hm hvalid hp.2 _), ?_⟩
    exact congrArg (s.handled_retval + ·) (BitVec.ofNat_toNat 64 len).symm
  · simp only [if_neg hp, if_neg (fun h => hp (hpass.1 h))]
    exact ⟨(List.append_nil _).symm, (BitVec.add_zero _).symm⟩

/-- **The loop passes on the buffers that it does not leave out**, and counts their bytes. -/
theorem foldl_handleIovec_eq {iov_addr : U64} {n : Nat} (hv : ∀ i, i < n → m.IovValid (iovecAt iov_addr i)) (s : Tracer) :
    let sent := (((List.range n).map fun i => m.iovBytes (iovecAt iov_addr i)).filter passable).flatten
    let s' := (List.range n).foldl (Tracer.handleIovec ch iov_addr) s
    s'.console = s.console ++ sent ∧ s'.handled_retval = s.handled_retval + BitVec.ofNat 64 sent.length := by
  induction n with
  | zero => exact ⟨(List.append_nil _).symm, (BitVec.add_zero _).symm⟩
  | succ n ih =>
    obtain ⟨hconsole, hret⟩ := ih fun i hi => hv i (Nat.lt_succ_of_lt hi)
    obtain ⟨hc, hr⟩ := handleIovec_eq hm (hv n (Nat.lt_succ_self n))
      ((List.range n).foldl (Tracer.handleIovec ch iov_addr) s)
    have hlast : ([m.iovBytes (iovecAt iov_addr n)].filter passable).flatten =
        if passable (m.iovBytes (iovecAt iov_addr n)) then m.iovBytes (iovecAt iov_addr n) else [] := by
      rw [List.filter_cons]
      split <;> simp
    simp only [List.range_succ, List.map_append, List.map_singleton, List.filter_append, List.flatten_append, hlast,
      List.foldl_append, List.foldl_cons, List.foldl_nil]
    rw [hc, hr, hconsole, hret, List.length_append, BitVec.ofNat_add, List.append_assoc, BitVec.add_assoc]
    exact ⟨rfl, rfl⟩

end Calls

theorem iovPasses_le (x2 : U64) : iovPasses x2 ≤ 16 ∧ iovPasses x2 ≤ x2.toNat := by
  have hword : (x2.setWidth 32).toNat ≤ x2.toNat := by
    rw [BitVec.toNat_setWidth]
    exact Nat.mod_le _ _
  have hint : (x2.setWidth 32).toInt.toNat ≤ (x2.setWidth 32).toNat := by
    rw [BitVec.toInt_eq_toNat_cond]
    split <;> omega
  unfold iovPasses
  omega

/-! ## The entry -/

/-- What an entry stop saves before the `switch`. -/
def Tracer.saved (s : Tracer) : Tracer :=
  { s with entry_nr := s.regs.x 8, saved_x0 := s.regs.x 0, saved_x1 := s.regs.x 1, saved_x2 := s.regs.x 2 }

section Entry

variable {ch : Stopped} {m : ChildMem} {s : Tracer} (hm : ch.Reads m) (pid : Pid)
include hm

theorem handleEntry_write (hnr : s.regs.x 8 = Sys.write) (hfd : Tracer.isConsoleFd (s.regs.x 0) = true)
    (hv : m.Valid (s.regs.x 1) (s.regs.x 2)) :
    let sent := (m.bytes (s.regs.x 1) (s.regs.x 2)).take bufSize
    (Tracer.handleEntry pid ch s).2.console = s.console ++ sent ∧ Tracer.decided (Tracer.handleEntry pid ch s) =
      .handled (if sent = [] then -14 else BitVec.ofNat 64 sent.length) := by
  have hentry : Tracer.handleEntry pid ch s = Tracer.nullify pid (Tracer.handleWrite ch s.saved) := by
    have hpass : ¬ Sys.passthrough.contains (s.regs.x 8) = true := hnr ▸ by decide
    have hexit : ¬ (s.regs.x 8 = Sys.exit_group ∨ s.regs.x 8 = Sys.exit) := hnr ▸ by decide
    unfold Tracer.handleEntry
    dsimp only
    rw [if_neg hpass, if_neg hexit, if_pos hnr, if_pos hfd]
    rfl
  obtain ⟨hconsole, hret⟩ := handleWrite_eq hm (s := s.saved) hv
  rw [hentry]
  exact ⟨hconsole, congrArg Decision.handled hret⟩

theorem handleEntry_writev (hnr : s.regs.x 8 = Sys.writev) (hfd : Tracer.isConsoleFd (s.regs.x 0) = true)
    (hv : ∀ i, i < iovPasses (s.regs.x 2) → m.IovValid (iovecAt (s.regs.x 1) i)) :
    let sent := (((List.range (iovPasses (s.regs.x 2))).map fun i => m.iovBytes (iovecAt (s.regs.x 1) i)).filter passable).flatten
    (Tracer.handleEntry pid ch s).2.console = s.console ++ sent ∧
      Tracer.decided (Tracer.handleEntry pid ch s) = .handled (BitVec.ofNat 64 sent.length) := by
  have hentry : Tracer.handleEntry pid ch s = Tracer.nullify pid (Tracer.handleWritev ch s.saved) := by
    have hpass : ¬ Sys.passthrough.contains (s.regs.x 8) = true := hnr ▸ by decide
    have hexit : ¬ (s.regs.x 8 = Sys.exit_group ∨ s.regs.x 8 = Sys.exit) := hnr ▸ by decide
    have hwrite : s.regs.x 8 ≠ Sys.write := hnr ▸ by decide
    unfold Tracer.handleEntry
    dsimp only
    rw [if_neg hpass, if_neg hexit, if_neg hwrite, if_pos hnr, if_pos hfd]
    rfl
  obtain ⟨hconsole, hret⟩ := foldl_handleIovec_eq hm hv { s.saved with handled_retval := 0 }
  rw [hentry]
  exact ⟨hconsole, congrArg Decision.handled (hret.trans (BitVec.zero_add _))⟩

end Entry

section Reports

variable {ch : Stopped} {m : ChildMem} {r : Aarch64Regs} {bufs : List (List U8)} {s : Tracer}

/-- **What an entry passes to the console is what the value that it decides reports, exactly when it is conveyed.** -/
theorem handleEntry_reported (hm : ch.Reads m) (hreq : Requests m r bufs) (hregs : s.regs = r) (pid : Pid) :
    ∃ sent retval, (Tracer.handleEntry pid ch s).2.console = s.console ++ sent ∧
      Tracer.decided (Tracer.handleEntry pid ch s) = .handled retval ∧ (Reported bufs sent retval ↔ Conveyed r bufs) := by
  subst hregs
  unfold Conveyed
  cases hreq with
  | write hnr hfd hbuf =>
    obtain ⟨hconsole, hdecided⟩ := handleEntry_write hm pid hnr hfd hbuf
    refine ⟨_, _, hconsole, hdecided, ?_⟩
    rw [if_pos hnr, List.flatten_singleton]
    have hempty : (m.bytes (s.regs.x 1) (s.regs.x 2)).take bufSize = [] ↔ m.bytes (s.regs.x 1) (s.regs.x 2) = [] := by
      simp [bufSize]
    by_cases hnone : m.bytes (s.regs.x 1) (s.regs.x 2) = []
    · rw [if_pos (hempty.2 hnone)]
      exact ⟨fun h => absurd h.nonneg (by decide), fun h => absurd hnone h⟩
    · have hlen : ((m.bytes (s.regs.x 1) (s.regs.x 2)).take bufSize).length ≤ 2 ^ 16 :=
        Nat.le_trans (List.length_take_le _ _) (by decide)
      rw [if_neg fun h => hnone (hempty.1 h), reported_count_iff hlen, List.flatten_singleton]
      exact ⟨fun _ => hnone, fun _ => List.take_prefix _ _⟩
  | writev hnr hfd hbufs =>
    obtain ⟨hlimit, hpasses⟩ := iovPasses_le (s.regs.x 2)
    obtain ⟨hconsole, hdecided⟩ := handleEntry_writev hm pid hnr hfd fun i hi => hbufs i (Nat.lt_of_lt_of_le hi hpasses)
    refine ⟨_, _, hconsole, hdecided, ?_⟩
    rw [if_neg (by rw [hnr]; decide)]
    generalize hall : (List.range (s.regs.x 2).toNat).map (fun i => m.iovBytes (iovecAt (s.regs.x 1) i)) = all
    have htake : (List.range (iovPasses (s.regs.x 2))).map (fun i => m.iovBytes (iovecAt (s.regs.x 1) i)) =
        all.take (iovPasses (s.regs.x 2)) := by
      rw [← hall, ← List.map_take, List.take_range, Nat.min_eq_left hpasses]
    have hsplit : all.flatten = (all.take (iovPasses (s.regs.x 2))).flatten ++ (all.drop (iovPasses (s.regs.x 2))).flatten := by
      rw [← List.flatten_append, List.take_append_drop]
    have hlen : ((all.take (iovPasses (s.regs.x 2))).filter passable).flatten.length ≤ 2 ^ 16 := by
      refine Nat.le_trans (passed_le _) ?_
      exact Nat.mul_le_mul_right bufSize (Nat.le_trans (List.length_take_le _ _) hlimit)
    rw [htake, reported_count_iff hlen, hsplit, passed_prefix_iff]

/-! ## From the entry to the exit -/

theorem running_of_round {root : Pid} {w : Waited} (h : (s.round root w).running = true) : s.running = true := by
  by_contra hno
  unfold Tracer.round at h
  rw [if_neg hno] at h
  exact hno h

theorem running_of_foldl {root : Pid} {ws : List Waited} (h : (ws.foldl (Tracer.round root) s).running = true) :
    s.running = true := by
  induction ws generalizing s with
  | nil => exact h
  | cons w ws ih => exact running_of_round (ih h)

theorem foldl_tracer (root : Pid) (s : Traced) (ws : List Waited) :
    (ws.foldl (Traced.round root) s).tracer = ws.foldl (Tracer.round root) s.tracer := by
  induction ws generalizing s with
  | nil => rfl
  | cons w ws ih => exact ih (s.round root w)

/-- `waitpid` has returned for another process, or failed. -/
def Waited.NotOf (pid : Pid) : Waited → Prop
  | .failed => True
  | .pid q _ _ => q ≠ pid

theorem asked_observe {s : Traced} {pid : Pid} {w : Waited} (hw : w.NotOf pid) :
    (s.observe w).asked pid = s.asked pid := by
  unfold Traced.observe
  split
  · cases w with
    | failed => rfl
    | pid q status ch =>
      have hq : pid ≠ q := fun h => hw h.symm
      cases status with
      | exited code => exact setAt_ne _ _ hq
      | signaled sig => exact setAt_ne _ _ hq
      | other => rfl
      | stopped sig event =>
        dsimp only
        unfold Traced.observeStop
        split
        · rfl
        split
        · split
          · exact setAt_ne _ _ hq
          · exact setAt_ne _ _ hq
          · rfl
        · split
          · exact setAt_ne _ _ hq
          · rfl
  · rfl

theorem asked_foldl {root pid : Pid} {s : Traced} {ws : List Waited} (hws : ∀ w ∈ ws, w.NotOf pid) :
    (ws.foldl (Traced.round root) s).asked pid = s.asked pid := by
  induction ws generalizing s with
  | nil => rfl
  | cons w ws ih =>
    have hrest := ih (s := s.round root w) fun v hv => hws v (List.mem_cons_of_mem w hv)
    exact hrest.trans (asked_observe (hws w List.mem_cons_self))

theorem console_syscallEntry (s : Tracer) (root pid : Pid) (ch : Stopped) :
    (s.syscallEntry root pid ch).console = (Tracer.handleEntry pid ch s).2.console := by
  unfold Tracer.syscallEntry
  dsimp only
  split
  · unfold Tracer.killProcess
    split <;> rfl
  · rfl

/-- A system call stop. -/
def stopOf (pid : Pid) (ch : Stopped) : Waited := .pid pid (.stopped sigSyscall 0) ch

/-- The entry stop of a console write: what it passes on, and the decision that waits for its exit. -/
theorem round_entry (root pid : Pid) {s : Traced} (hrun : s.tracer.running = true) (hm : ch.Reads m)
    (hreq : Requests m r bufs) (hop : ch.op = some .entry) (hregs : ch.regs = some r) :
    ∃ sent retval, (s.round root (stopOf pid ch)).tracer.console = s.tracer.console ++ sent ∧
      (s.round root (stopOf pid ch)).asked pid = some (.handled retval) ∧ (Reported bufs sent retval ↔ Conveyed r bufs) := by
  obtain ⟨t, ht⟩ : ∃ t, t = Tracer.getRegs pid { s.tracer with procs := setAt s.tracer.procs pid ch.regs } := ⟨_, rfl⟩
  have htregs : t.regs = r := by simp [ht, Tracer.getRegs, setAt_self, hregs]
  obtain ⟨sent, retval, hconsole, hdecided, hiff⟩ := handleEntry_reported hm hreq htregs pid
  have hround : (s.round root (stopOf pid ch)).tracer = t.syscallEntry root pid ch := by
    unfold Traced.round Tracer.round stopOf
    rw [if_pos hrun]
    unfold Tracer.stoppedProcess Tracer.syscallStop
    simp only [ne_eq, not_true_eq_false, if_false, if_true, hop, ht]
  have hdecision : Tracer.entryDecision (ch.regs.getD s.tracer.regs) ch = .handled retval := by
    rw [hregs, Option.getD_some, ← htregs, ← hdecided, Tracer.decided_handleEntry]
  have hasked : (s.observe (stopOf pid ch)).asked pid = some (.handled retval) := by
    unfold Traced.observe stopOf
    rw [if_pos hrun]
    unfold Traced.observeStop Traced.ask
    simp only [ne_eq, not_true_eq_false, if_false, if_true, hop, hdecision]
    exact setAt_self _ _ _
  refine ⟨sent, retval, ?_, hasked, hiff⟩
  rw [hround, console_syscallEntry, hconsole, ht]
  rfl

/-- **A console write reports what it sent exactly when it is conveyed**, in every run in which no exit stop is overtaken. -/
theorem writeReported_iff (root pid : Pid) (s : Tracer) (pre between : List Waited) {ch' : Stopped} {r' : Aarch64Regs}
    (hm : ch.Reads m) (hreq : Requests m r bufs) (hentry : ch.op = some .entry ∧ ch.regs = some r)
    (hexit : ch'.op = some .exit ∧ ch'.regs = some r') (hbetween : ∀ w ∈ between, w.NotOf pid)
    (hrun : ((pre ++ stopOf pid ch :: between).foldl (Tracer.round root) s).running = true)
    (hclear : Runs.Avoids (Traced.round root) Traced.Overtaken (.start s) (pre ++ stopOf pid ch :: between ++ [stopOf pid ch'])) :
    ∃ sent x0, ((pre ++ [stopOf pid ch]).foldl (Tracer.round root) s).console =
        (pre.foldl (Tracer.round root) s).console ++ sent ∧
      (((pre ++ stopOf pid ch :: between ++ [stopOf pid ch']).foldl (Tracer.round root) s).procs pid).map (fun r => r.x 0) =
        some x0 ∧ (Reported bufs sent x0 ↔ Conveyed r bufs) := by
  have hbefore : (pre.foldl (Traced.round root) (.start s)).tracer.running = true := by
    rw [foldl_tracer]
    rw [List.foldl_append] at hrun
    exact running_of_foldl hrun
  obtain ⟨sent, retval, hconsole, hasked, hiff⟩ := round_entry root pid hbefore hm hreq hentry.1 hentry.2
  refine ⟨sent, retval, ?_, ?_, hiff⟩
  · have hpre : (pre.foldl (Traced.round root) (.start s)).tracer = pre.foldl (Tracer.round root) s := foldl_tracer root _ _
    have hafter : ((pre.foldl (Traced.round root) (.start s)).round root (stopOf pid ch)).tracer =
        (pre ++ [stopOf pid ch]).foldl (Tracer.round root) s := by
      rw [List.foldl_append, ← hpre]
      rfl
    rw [← hafter, hconsole, hpre]
  · obtain ⟨e, he⟩ : ∃ e, e = (pre ++ stopOf pid ch :: between).foldl (Traced.round root) (.start s) := ⟨_, rfl⟩
    have htracer : e.tracer = (pre ++ stopOf pid ch :: between).foldl (Tracer.round root) s := he ▸ foldl_tracer root _ _
    have hknown : e.Entered ∧ e.Remembers := he ▸ Traced.known_foldl (Traced.known_start s) root _
    have hwaits : e.asked pid = some (.handled retval) := by
      rw [he, List.foldl_append, List.foldl_cons, asked_foldl hbetween]
      exact hasked
    have hexitOf : e.ExitOf (stopOf pid ch') pid r' (.handled retval) :=
      ⟨htracer ▸ hrun, ⟨ch', rfl, hexit.1, hexit.2⟩, hwaits⟩
    have hown : ¬ e.Mixes root (stopOf pid ch') := by
      rw [e.mixes_iff root _ hknown.1 hknown.2, he]
      exact hclear _ _ List.prefix_rfl
    have hreturned : SyscallReturned pid r' (.handled retval) e.tracer (e.tracer.round root (stopOf pid ch')) := by
      by_contra hmixed
      exact hown ⟨pid, r', _, hexitOf, hmixed⟩
    rw [List.foldl_append, List.foldl_cons, List.foldl_nil, ← htracer, hreturned.own, Option.map_some, Decision.returns_x0]
    rfl

end Reports

/-! ## A process with two bytes -/

def twoBytes : ChildMem where
  mem := fun addr => if addr = 0x1000 then 0x68 else if addr = 0x1001 then 0x69 else 0
  mapped := fun addr => addr = 0x1000 ∨ addr = 0x1001

theorem twoBytes_valid {len : U64} (h : len ≤ 2) : twoBytes.Valid 0x1000 len := by
  intro i hi
  match i, Nat.lt_of_lt_of_le hi h with
  | 0, _ => exact .inl rfl
  | 1, _ => exact .inr rfl

/-- A stop at which all of the process can be read. -/
def readableStop (m : ChildMem) (op : SyscallOp) (r : Aarch64Regs) : Stopped where
  op := some op
  regs := some r
  event_msg := 0
  readv := fun _ addr len => (len, fun i => m.mem (addr + i))

theorem readableStop_reads (m : ChildMem) (op : SyscallOp) (r : Aarch64Regs) : (readableStop m op r).Reads m :=
  ⟨fun _ _ _ _ _ => rfl, fun _ _ _ _ _ _ _ => rfl⟩

/-- A `write` of `count` bytes at 0x1000 to descriptor 1. -/
def writeRegs (count : U64) : Aarch64Regs where
  x := fun i => if i.val = 0 then 1 else if i.val = 1 then 0x1000 else if i.val = 2 then count else if i.val = 8 then Sys.write else 0
  sp := 0
  pc := 0
  pstate := 0

def writeEntry (count : U64) : Stopped := readableStop twoBytes .entry (writeRegs count)

def writeExit : Stopped := readableStop twoBytes .exit (haltedRegs (-38) (-1))

theorem writeRequests {count : U64} (h : count ≤ 2) : Requests twoBytes (writeRegs count) [twoBytes.bytes 0x1000 count] :=
  .write rfl rfl (twoBytes_valid h)

theorem writeReported_twoBytes :
    let run := [] ++ stopOf 1 (writeEntry 2) :: [] ++ [stopOf 1 writeExit]
    let s := Tracer.blank (haltedRegs 0 0)
    Runs.Avoids (Traced.round 1) Traced.Overtaken (.start s) run ∧
    ∃ sent x0, (([] ++ [stopOf 1 (writeEntry 2)]).foldl (Tracer.round 1) s).console = (List.foldl (Tracer.round 1) s []).console ++ sent ∧
      ((run.foldl (Tracer.round 1) s).procs 1).map (fun r => r.x 0) = some x0 ∧
      (Reported [twoBytes.bytes 0x1000 2] sent x0 ↔ Conveyed (writeRegs 2) [twoBytes.bytes 0x1000 2]) := by
  have hclear := Traced.not_overtaken_alone 1 1 (.blank (haltedRegs 0 0)) ([] ++ stopOf 1 (writeEntry 2) :: [] ++ [stopOf 1 writeExit])
    (by
      intro pid status ch h
      simp only [stopOf, List.nil_append, List.cons_append, List.mem_cons, Waited.pid.injEq, List.not_mem_nil, or_false] at h
      rcases h with ⟨rfl, -⟩ | ⟨rfl, -⟩ <;> rfl)
  refine ⟨hclear, ?_⟩
  exact writeReported_iff 1 1 _ [] [] (readableStop_reads _ _ _) (writeRequests (by decide)) ⟨rfl, rfl⟩ ⟨rfl, rfl⟩
    (fun _ h => absurd h List.not_mem_nil) (by decide) hclear

/-- **A `write` of no bytes is answered with -EFAULT.** -/
theorem not_writeReported_empty :
    Requests twoBytes (writeRegs 0) [[]] ∧ (writeEntry 0).Reads twoBytes ∧
    ¬ ∃ sent x0, (Tracer.round 1 (.blank (haltedRegs 0 0)) (stopOf 1 (writeEntry 0))).console = [] ++ sent ∧
      (([stopOf 1 (writeEntry 0), stopOf 1 writeExit].foldl (Tracer.round 1) (.blank (haltedRegs 0 0))).procs 1).map
        (fun r => r.x 0) = some x0 ∧ Reported [[]] sent x0 := by
  refine ⟨writeRequests (by decide), readableStop_reads _ _ _, ?_⟩
  rintro ⟨sent, x0, -, hx0, h⟩
  have herror : (([stopOf 1 (writeEntry 0), stopOf 1 writeExit].foldl (Tracer.round 1) (.blank (haltedRegs 0 0))).procs 1).map
      (fun r => r.x 0) = some (-14) := by decide
  have hneg := h.nonneg
  rw [Option.some.inj (hx0.symm.trans herror)] at hneg
  exact absurd hneg (by decide)

end PgLinux
