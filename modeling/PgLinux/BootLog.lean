import PgLinux.Lib.Runs
import PgLinux.Virtio
/-!
# BootLog — the log that the kernel and the commands write (`linuxsql.c`)

`pg_boot_log` is taken with `palloc0` at the first call and kept for good, with `pg_boot_log_pos` behind the last byte.
The console appends to it, `linux_boot` the report of a crash and `linux_exec` that of an exit code.  An `int` is 32 bits
and wraps, as PostgreSQL has its extensions compiled, and the memory context of the first call may be reset behind the
pointer's back.
-/
namespace PgLinux

/-! ## State -/

def bootLogSize : Nat := 256 * 1024

/-- What `pg_boot_log` points to: nothing, the buffer, or memory that is not the log's any more. -/
inductive LogPtr where
  | null
  | buffer (bytes : Int → U8)
  | dangling

structure BootLog where
  pg_boot_log : LogPtr
  pg_boot_log_pos : U32

/-- Bytes that are written at an offset from `pg_boot_log`. -/
structure LogStore where
  off : Int
  data : List U8

def BootLog.init : BootLog := ⟨.null, 0⟩

def BootLog.poke (s : BootLog) (w : LogStore) : BootLog :=
  match s.pg_boot_log with
  | .buffer bytes => { s with pg_boot_log := .buffer fun i =>
      if w.off ≤ i ∧ i < w.off + w.data.length then w.data.getD (i - w.off).toNat 0 else bytes i }
  | _ => s

/-- The stores of a function, and the state that they leave. -/
def BootLog.put (s : BootLog) (ws : List LogStore) (pos : U32) : BootLog × List LogStore :=
  ({ ws.foldl BootLog.poke s with pg_boot_log_pos := pos }, ws)

/-! ## Text -/

def asciiBytes (s : String) : List U8 := s.toList.map fun ch => BitVec.ofNat 8 ch.toNat

/-- `%d`. -/
def decimal (n : U32) : String := toString n.toInt

def crashText (sig : U32) : List U8 := asciiBytes ("\n*** KERNEL CRASH: signal " ++ decimal sig ++ " ***\n")

def exitText (code : U32) : List U8 := asciiBytes ("\n[exit code: " ++ decimal code ++ "]\n")

/-- What `snprintf` stores of a text in `size` bytes. -/
def snprintf (size : Nat) (text : List U8) : List U8 := if size = 0 then [] else text.take (size - 1) ++ [0]

/-- `BOOT_LOG_SIZE - pg_boot_log_pos`, as the `size_t` that `snprintf` takes. -/
def BootLog.roomLeft (s : BootLog) : Nat := ((BitVec.ofNat 32 bootLogSize - s.pg_boot_log_pos).signExtend 64).toNat

/-! ## The writers -/

/-- A buffer that an `unsigned int` counts. -/
structure ConsoleBuf where
  bytes : List U8
  counted : bytes.length < 2 ^ 32

def ConsoleBuf.len (buf : ConsoleBuf) : U32 := BitVec.ofNat 32 buf.bytes.length

/-- `pg_console_write`, after the write to stderr. -/
def pgConsoleWrite (buf : ConsoleBuf) (s : BootLog) : BootLog × List LogStore :=
  match s.pg_boot_log with
  | .null => (s, [])
  | _ =>
    if (s.pg_boot_log_pos + buf.len).slt (BitVec.ofNat 32 bootLogSize) then
      let pos := s.pg_boot_log_pos + buf.len
      s.put [⟨s.pg_boot_log_pos.toInt, buf.bytes⟩, ⟨pos.toInt, [0]⟩] pos
    else (s, [])

/-- `pg_ext_console_write`: the same under a name of its own. -/
def pgExtConsoleWrite (buf : ConsoleBuf) (s : BootLog) : BootLog × List LogStore := pgConsoleWrite buf s

/-- A report appended with `snprintf`. -/
def BootLog.report (s : BootLog) (text : List U8) : BootLog × List LogStore :=
  s.put [⟨s.pg_boot_log_pos.toInt, snprintf s.roomLeft text⟩] (s.pg_boot_log_pos + BitVec.ofNat 32 text.length)

/-- `linux_boot` before `start_kernel`. -/
def linuxBoot (s : BootLog) : BootLog × List LogStore :=
  match s.pg_boot_log with
  | .null => (⟨.buffer fun _ => 0, 0⟩, [])
  | _ => (s, [])

/-- `linux_boot` after the kernel has crashed. -/
def linuxBootCrash (sig : U32) (s : BootLog) : BootLog × List LogStore :=
  match s.pg_boot_log with
  | .null => (s, [])
  | _ => s.report (crashText sig)

/-- `linux_exec` before `pg_run_cmd`. -/
def linuxExec (s : BootLog) : BootLog × List LogStore :=
  let s := match s.pg_boot_log with
    | .null => { s with pg_boot_log := .buffer fun _ => 0 }
    | _ => s
  s.put [⟨0, [0]⟩] 0

/-- `linux_exec` after `pg_run_cmd`. -/
def linuxExecExit (code : U32) (s : BootLog) : BootLog × List LogStore :=
  if code = 0 then (s, []) else s.report (exitText code)

/-- `palloc0` took the log from a memory context that PostgreSQL resets. -/
def contextReset (s : BootLog) : BootLog :=
  match s.pg_boot_log with
  | .null => s
  | _ => { s with pg_boot_log := .dangling }

inductive LogEvent where
  | boot
  | exec
  | consoleWrite (buf : ConsoleBuf)
  | crash (sig : U32)
  | exit (code : U32)
  | contextReset

def BootLog.effect (s : BootLog) : LogEvent → BootLog × List LogStore
  | .boot => linuxBoot s
  | .exec => linuxExec s
  | .consoleWrite buf => pgExtConsoleWrite buf s
  | .crash sig => linuxBootCrash sig s
  | .exit code => linuxExecExit code s
  | .contextReset => (PgLinux.contextReset s, [])

def BootLog.step (s : BootLog) (e : LogEvent) : BootLog := (s.effect e).1

/-! ## What is asked -/

def LogPtr.isBuffer : LogPtr → Bool
  | .buffer _ => true
  | _ => false

/-- The position is in the log, and the log ends there. -/
structure BootLog.Terminated (s : BootLog) : Prop where
  pos_nonneg : 0 ≤ s.pg_boot_log_pos.toInt
  pos_lt : s.pg_boot_log_pos.toInt < bootLogSize
  nul : ∀ bytes, s.pg_boot_log = .buffer bytes → bytes s.pg_boot_log_pos.toInt = 0

/-- A store stays in the buffer that `p` points to. -/
def LogStore.Inside (w : LogStore) (p : LogPtr) : Prop :=
  p.isBuffer = true ∧ 0 ≤ w.off ∧ w.off + w.data.length ≤ bootLogSize

/-- An event that writes outside the buffer. -/
def BootLog.StraysAt (s : BootLog) (e : LogEvent) : Prop :=
  ∃ w ∈ (s.effect e).2, ¬ w.Inside (s.effect e).1.pg_boot_log

/-- **Where an event keeps to the log**: a console write does not carry the position past the largest `int`, a report ends
in the log, and what is written to is still the log. -/
def BootLog.Fits (s : BootLog) : LogEvent → Prop
  | .boot | .contextReset => True
  | .exec => s.pg_boot_log ≠ .dangling
  | .consoleWrite buf => s.pg_boot_log = .null ∨
      (s.pg_boot_log_pos.toNat + buf.bytes.length < 2 ^ 31 ∧
        (s.pg_boot_log_pos.toNat + buf.bytes.length < bootLogSize → s.pg_boot_log ≠ .dangling))
  | .crash sig => s.pg_boot_log = .null ∨
      (s.pg_boot_log ≠ .dangling ∧ s.pg_boot_log_pos.toNat + (crashText sig).length < bootLogSize)
  | .exit code => code = 0 ∨
      (s.pg_boot_log.isBuffer = true ∧ s.pg_boot_log_pos.toNat + (exitText code).length < bootLogSize)

/-! ## Stores -/

@[simp] theorem poke_isBuffer (s : BootLog) (w : LogStore) : (s.poke w).pg_boot_log.isBuffer = s.pg_boot_log.isBuffer := by
  unfold BootLog.poke
  cases h : s.pg_boot_log <;> simp [h, LogPtr.isBuffer]

@[simp] theorem put_isBuffer (s : BootLog) (ws : List LogStore) (pos : U32) :
    (s.put ws pos).1.pg_boot_log.isBuffer = s.pg_boot_log.isBuffer := by
  show (ws.foldl BootLog.poke s).pg_boot_log.isBuffer = _
  induction ws generalizing s with
  | nil => rfl
  | cons w ws ih => rw [List.foldl_cons, ih, poke_isBuffer]

/-- The byte that a store ends with, when the store is the last. -/
theorem put_last {s : BootLog} (ws : List LogStore) {off : Int} (data : List U8) {v : U8} {pos : U32} {bytes : Int → U8}
    (h : (s.put (ws ++ [⟨off, data ++ [v]⟩]) pos).1.pg_boot_log = .buffer bytes) : bytes (off + data.length) = v := by
  have hlog : (ws.foldl BootLog.poke s |>.poke ⟨off, data ++ [v]⟩).pg_boot_log = .buffer bytes := by
    rw [← h]
    show _ = ((ws ++ [(⟨off, data ++ [v]⟩ : LogStore)]).foldl BootLog.poke s).pg_boot_log
    rw [List.foldl_append]
    rfl
  unfold BootLog.poke at hlog
  split at hlog
  next old _ =>
    have hbytes := congrFun (LogPtr.buffer.inj hlog) (off + data.length)
    have hin : off ≤ off + data.length ∧ off + (data.length : Int) < off + ((data ++ [v]).length : Nat) := by
      rw [List.length_append, List.length_singleton]
      omega
    have hidx : (off + (data.length : Int) - off).toNat = data.length := by omega
    dsimp only at hbytes
    rw [if_pos hin, hidx] at hbytes
    rw [← hbytes]
    simp
  next hno => exact absurd hlog (hno bytes)

/-! ## Positions -/

theorem decimal_length (n : U32) : (decimal n).length ≤ 11 := by
  have hlo := @BitVec.le_two_mul_toInt 32 n
  have hhi := @BitVec.two_mul_toInt_lt 32 n
  have hrepr : ∀ m : Nat, m < 10 ^ 10 → (Nat.repr m).length ≤ 10 := fun m hm =>
    (Nat.length_repr_le_iff (by decide)).2 hm
  unfold decimal
  cases hn : n.toInt with
  | ofNat m =>
    have hm : (m : Int) = n.toInt := hn.symm
    have := hrepr m (by omega)
    show (Nat.repr m).length ≤ 11
    omega
  | negSucc m =>
    have hm : -(m + 1 : Int) = n.toInt := by rw [hn]; omega
    have := hrepr (m + 1) (by omega)
    show ("-" ++ Nat.repr (m + 1)).length ≤ 11
    rw [String.length_append]
    show 1 + _ ≤ 11
    omega

theorem asciiBytes_length (s : String) : (asciiBytes s).length = s.length := by
  rw [asciiBytes, List.length_map, String.length_toList]

theorem crashText_length (sig : U32) : (crashText sig).length < 64 := by
  have h := decimal_length sig
  unfold crashText
  rw [asciiBytes_length, String.length_append, String.length_append]
  have h1 : "\n*** KERNEL CRASH: signal ".length = 26 := rfl
  have h2 : " ***\n".length = 5 := rfl
  omega

theorem exitText_length (code : U32) : (exitText code).length < 64 := by
  have h := decimal_length code
  unfold exitText
  rw [asciiBytes_length, String.length_append, String.length_append]
  have h1 : "\n[exit code: ".length = 13 := rfl
  have h2 : "]\n".length = 2 := rfl
  omega

theorem BootLog.Terminated.toNat {s : BootLog} (h : s.Terminated) :
    s.pg_boot_log_pos.toInt = s.pg_boot_log_pos.toNat ∧ s.pg_boot_log_pos.toNat < bootLogSize := by
  have hlo := h.pos_nonneg
  have hhi := h.pos_lt
  have hsize : bootLogSize = 262144 := rfl
  have hpos := s.pg_boot_log_pos.isLt
  rw [BitVec.toInt_eq_toNat_cond] at *
  split at hhi <;> omega

theorem roomLeft_eq {s : BootLog} (h : s.Terminated) : s.roomLeft = bootLogSize - s.pg_boot_log_pos.toNat := by
  have hpos := h.toNat.2
  have hsize : bootLogSize = 262144 := rfl
  have hsub : (BitVec.ofNat 32 bootLogSize - s.pg_boot_log_pos).toNat = bootLogSize - s.pg_boot_log_pos.toNat := by
    rw [hsize] at hpos ⊢
    bv_omega
  have hmsb : (BitVec.ofNat 32 bootLogSize - s.pg_boot_log_pos).msb = false := by
    rw [BitVec.msb_eq_false_iff_two_mul_lt, hsub]
    omega
  unfold BootLog.roomLeft
  rw [BitVec.signExtend_eq_setWidth_of_msb_false hmsb, BitVec.toNat_setWidth, hsub, Nat.mod_eq_of_lt (by omega)]

/-- A position moved on by less than the rest of an `int` does not wrap. -/
theorem pos_add {pos : U32} {n : Nat} (h : pos.toNat + n < 2 ^ 31) :
    (pos + BitVec.ofNat 32 n).toInt = pos.toNat + n := by
  have hadd : (pos + BitVec.ofNat 32 n).toNat = pos.toNat + n := by bv_omega
  rw [BitVec.toInt_eq_toNat_of_lt (by omega), hadd]
  rfl

/-! ## One event -/

/-- What a function leaves is terminated, and it has stored in the log only. -/
def Kept (r : BootLog × List LogStore) : Prop := r.1.Terminated ∧ ∀ w ∈ r.2, w.Inside r.1.pg_boot_log

theorem kept_nil {s : BootLog} (h : s.Terminated) : Kept (s, []) := ⟨h, fun _ hw => absurd hw (List.not_mem_nil)⟩

theorem isBuffer_ne_dangling {p : LogPtr} (hnull : p ≠ .null) : p.isBuffer = true ↔ p ≠ .dangling := by
  cases p <;> simp [LogPtr.isBuffer] at *

/-- **A report is kept exactly when it ends in the log.** -/
theorem report_kept_iff {s : BootLog} (h : s.Terminated) {text : List U8} (hlen : text.length < 64) :
    Kept (s.report text) ↔ s.pg_boot_log.isBuffer = true ∧ s.pg_boot_log_pos.toNat + text.length < bootLogSize := by
  obtain ⟨hpos, hlt⟩ := h.toNat
  have hsize : bootLogSize = 262144 := rfl
  have hnext : (s.report text).1.pg_boot_log_pos.toInt = s.pg_boot_log_pos.toNat + text.length := pos_add (by omega)
  have hbuffer : (s.report text).1.pg_boot_log.isBuffer = s.pg_boot_log.isBuffer := put_isBuffer _ _ _
  constructor
  · rintro ⟨hterm, hinside⟩
    have hin := hinside _ (List.mem_singleton_self _)
    have hend := hterm.pos_lt
    exact ⟨hbuffer ▸ hin.1, by omega⟩
  · rintro ⟨hbuf, hfits⟩
    have htext : snprintf s.roomLeft text = text ++ [0] := by
      unfold snprintf
      rw [roomLeft_eq h, if_neg (by omega), List.take_of_length_le (by omega)]
    refine ⟨⟨by omega, by omega, fun bytes hbytes => ?_⟩, fun w hw => ?_⟩
    · unfold BootLog.report at hbytes
      rw [htext] at hbytes
      rw [hnext, ← hpos]
      exact put_last [] text hbytes
    · obtain rfl := List.mem_singleton.1 hw
      refine ⟨hbuffer.trans hbuf, h.pos_nonneg, ?_⟩
      dsimp only
      rw [htext, List.length_append, List.length_singleton]
      omega

/-- The guard of `pg_console_write` holds where the bytes fit, and where the sum wraps. -/
theorem guard_iff {pos : U32} (buf : ConsoleBuf) (hpos : pos.toNat < bootLogSize) :
    (pos + buf.len).slt (BitVec.ofNat 32 bootLogSize) = true ↔
      pos.toNat + buf.bytes.length < bootLogSize ∨ 2 ^ 31 ≤ pos.toNat + buf.bytes.length := by
  have hsize : bootLogSize = 262144 := rfl
  have hcount := buf.counted
  have hlen : buf.len.toNat = buf.bytes.length := Nat.mod_eq_of_lt hcount
  have hlimit : (BitVec.ofNat 32 bootLogSize).toInt = 262144 := by decide
  have hadd := BitVec.toNat_add pos buf.len
  rw [BitVec.slt_eq_decide, decide_eq_true_eq, hlimit, BitVec.toInt_eq_toNat_cond]
  split <;> omega

/-- **A console write is kept exactly when it does not carry the position past the largest `int`**, and what it writes
goes to the log. -/
theorem consoleWrite_kept_iff {s : BootLog} (h : s.Terminated) (buf : ConsoleBuf) :
    Kept (pgExtConsoleWrite buf s) ↔ s.Fits (.consoleWrite buf) := by
  obtain ⟨hpos, hlt⟩ := h.toNat
  have hsize : bootLogSize = 262144 := rfl
  by_cases hnull : s.pg_boot_log = .null
  · have hnone : pgExtConsoleWrite buf s = (s, []) := by
      unfold pgExtConsoleWrite pgConsoleWrite
      rw [hnull]
    rw [hnone]
    exact ⟨fun _ => .inl hnull, fun _ => kept_nil h⟩
  · have hwrite : pgExtConsoleWrite buf s = if (s.pg_boot_log_pos + buf.len).slt (BitVec.ofNat 32 bootLogSize)
        then s.put [⟨s.pg_boot_log_pos.toInt, buf.bytes⟩, ⟨(s.pg_boot_log_pos + buf.len).toInt, [0]⟩]
          (s.pg_boot_log_pos + buf.len) else (s, []) := by
      unfold pgExtConsoleWrite pgConsoleWrite
      split
      next hlog => exact absurd hlog hnull
      next => rfl
    have hbuffer := isBuffer_ne_dangling hnull
    have hfits_iff : s.Fits (.consoleWrite buf) ↔ s.pg_boot_log_pos.toNat + buf.bytes.length < 2 ^ 31 ∧
        (s.pg_boot_log_pos.toNat + buf.bytes.length < bootLogSize → s.pg_boot_log ≠ .dangling) := or_iff_right hnull
    rw [hwrite, hfits_iff]
    by_cases hguard : (s.pg_boot_log_pos + buf.len).slt (BitVec.ofNat 32 bootLogSize) = true
    · rw [if_pos hguard]
      constructor
      · rintro ⟨-, hinside⟩
        have hin := hinside ⟨s.pg_boot_log_pos.toInt, buf.bytes⟩ (by simp [BootLog.put])
        have hend := hin.2.2
        have hbuf : s.pg_boot_log.isBuffer = true := (put_isBuffer _ _ _).symm.trans hin.1
        dsimp only at hend
        exact ⟨by omega, fun _ => hbuffer.1 hbuf⟩
      · rintro ⟨hint, hdang⟩
        have hfits : s.pg_boot_log_pos.toNat + buf.bytes.length < bootLogSize := by
          have := (guard_iff buf hlt).1 hguard
          omega
        have hnext : (s.pg_boot_log_pos + buf.len).toInt = s.pg_boot_log_pos.toNat + buf.bytes.length := pos_add hint
        have hbuf := hbuffer.2 (hdang hfits)
        refine ⟨⟨by rw [BootLog.put, hnext]; omega, by rw [BootLog.put, hnext]; omega, fun bytes hbytes => ?_⟩,
          fun w hw => ⟨(put_isBuffer _ _ _).trans hbuf, ?_⟩⟩
        · have hlast := put_last [⟨s.pg_boot_log_pos.toInt, buf.bytes⟩] [] hbytes
          rwa [List.length_nil, Int.natCast_zero, Int.add_zero] at hlast
        · have hcases : w = ⟨s.pg_boot_log_pos.toInt, buf.bytes⟩ ∨ w = ⟨(s.pg_boot_log_pos + buf.len).toInt, [0]⟩ := by
            simpa [BootLog.put] using hw
          rcases hcases with rfl | rfl
          · exact ⟨h.pos_nonneg, by dsimp only; omega⟩
          · exact ⟨by dsimp only; omega, by rw [List.length_singleton]; dsimp only; omega⟩
    · rw [if_neg hguard]
      have hout := mt (guard_iff buf hlt).2 hguard
      exact ⟨fun _ => ⟨by omega, fun hin => absurd hin (by omega)⟩, fun _ => kept_nil h⟩

theorem linuxBoot_kept {s : BootLog} (h : s.Terminated) : Kept (linuxBoot s) := by
  unfold linuxBoot
  split
  · exact ⟨⟨by decide, by decide, fun _ hbytes => by cases hbytes; rfl⟩, fun _ hw => absurd hw List.not_mem_nil⟩
  · exact kept_nil h

theorem linuxExec_kept_iff (s : BootLog) : Kept (linuxExec s) ↔ s.pg_boot_log ≠ .dangling := by
  obtain ⟨t, hexec, hbuf⟩ : ∃ t : BootLog, linuxExec s = t.put [⟨0, [0]⟩] 0 ∧
      (t.pg_boot_log.isBuffer = true ↔ s.pg_boot_log ≠ .dangling) := by
    refine ⟨_, rfl, ?_⟩
    cases hlog : s.pg_boot_log <;> simp [hlog, LogPtr.isBuffer]
  rw [hexec, ← hbuf]
  constructor
  · rintro ⟨-, hinside⟩
    exact (put_isBuffer _ _ _).symm.trans (hinside _ (List.mem_singleton_self _)).1
  · intro ht
    have hzero : (t.put [⟨0, [0]⟩] 0).1.pg_boot_log_pos.toInt = 0 := rfl
    refine ⟨⟨Int.le_of_eq hzero.symm, by rw [hzero]; decide, fun bytes hbytes => put_last [] [] hbytes⟩, fun w hw => ?_⟩
    obtain rfl := List.mem_singleton.1 hw
    exact ⟨(put_isBuffer _ _ _).trans ht, by decide, by decide⟩

theorem linuxBootCrash_kept_iff {s : BootLog} (h : s.Terminated) (sig : U32) :
    Kept (linuxBootCrash sig s) ↔ s.Fits (.crash sig) := by
  by_cases hnull : s.pg_boot_log = .null
  · have hnone : linuxBootCrash sig s = (s, []) := by
      unfold linuxBootCrash
      rw [hnull]
    rw [hnone]
    exact ⟨fun _ => .inl hnull, fun _ => kept_nil h⟩
  · have hreport : linuxBootCrash sig s = s.report (crashText sig) := by
      unfold linuxBootCrash
      split
      next hlog => exact absurd hlog hnull
      next => rfl
    have hfits : s.Fits (.crash sig) ↔
        s.pg_boot_log ≠ .dangling ∧ s.pg_boot_log_pos.toNat + (crashText sig).length < bootLogSize := or_iff_right hnull
    rw [hreport, hfits, report_kept_iff h (crashText_length sig), isBuffer_ne_dangling hnull]

theorem linuxExecExit_kept_iff {s : BootLog} (h : s.Terminated) (code : U32) :
    Kept (linuxExecExit code s) ↔ s.Fits (.exit code) := by
  unfold linuxExecExit
  by_cases hcode : code = 0
  · rw [if_pos hcode]
    exact ⟨fun _ => .inl hcode, fun _ => kept_nil h⟩
  · have hfits : s.Fits (.exit code) ↔ s.pg_boot_log.isBuffer = true ∧
        s.pg_boot_log_pos.toNat + (exitText code).length < bootLogSize := or_iff_right hcode
    rw [if_neg hcode, hfits, report_kept_iff h (exitText_length code)]

theorem contextReset_kept {s : BootLog} (h : s.Terminated) : Kept (contextReset s, []) := by
  unfold contextReset
  split
  · exact kept_nil h
  · exact ⟨⟨h.pos_nonneg, h.pos_lt, fun _ hbytes => nomatch hbytes⟩, fun _ hw => absurd hw List.not_mem_nil⟩

/-- **From a log that is terminated, an event keeps to the log exactly when it fits.** -/
theorem effect_kept_iff {s : BootLog} (h : s.Terminated) : ∀ e, Kept (s.effect e) ↔ s.Fits e
  | .boot => ⟨fun _ => trivial, fun _ => linuxBoot_kept h⟩
  | .exec => linuxExec_kept_iff s
  | .consoleWrite buf => consoleWrite_kept_iff h buf
  | .crash sig => linuxBootCrash_kept_iff h sig
  | .exit code => linuxExecExit_kept_iff h code
  | .contextReset => ⟨fun _ => trivial, fun _ => contextReset_kept h⟩

/-! ## Runs -/

/-- In every state of a run the log is terminated, and no event writes outside it. -/
def BootLog.StaysInBounds (s : BootLog) (evs : List LogEvent) : Prop :=
  Runs.Along BootLog.step BootLog.Terminated s evs ∧ Runs.Avoids BootLog.step BootLog.StraysAt s evs

theorem init_terminated : BootLog.init.Terminated := ⟨by decide, by decide, fun _ hbytes => nomatch hbytes⟩

theorem staysInBounds_iff {s : BootLog} (h : s.Terminated) (evs : List LogEvent) :
    s.StaysInBounds evs ↔ Runs.Avoids BootLog.step (fun s e => ¬ s.Fits e) s evs := by
  refine Runs.along_and_avoids_iff (I := fun _ => True) (fun _ _ _ => trivial) (fun s e _ hs => ?_) trivial h evs
  rw [not_not, ← effect_kept_iff hs]
  refine and_congr_right fun _ => ?_
  unfold BootLog.StraysAt
  simp only [not_exists, not_and, not_not]

/-- **The boot log stays in bounds exactly as long as what is written fits**: over every sequence of console writes, crash
reports and exit codes, through any number of `linux_boot` and `linux_exec` calls. -/
theorem bootLog_staysInBounds_iff (evs : List LogEvent) : BootLog.init.StaysInBounds evs ↔
    Runs.Avoids BootLog.step (fun s e => ¬ s.Fits e) .init evs := staysInBounds_iff init_terminated evs

theorem consoleWrite_pos {s : BootLog} (hbuf : s.pg_boot_log.isBuffer = true) (buf : ConsoleBuf)
    (hguard : (s.pg_boot_log_pos + buf.len).slt (BitVec.ofNat 32 bootLogSize) = true) :
    (s.step (.consoleWrite buf)).pg_boot_log_pos = s.pg_boot_log_pos + buf.len := by
  show (pgConsoleWrite buf s).1.pg_boot_log_pos = _
  unfold pgConsoleWrite
  split
  next hnull => simp [hnull, LogPtr.isBuffer] at hbuf
  next =>
    rw [if_pos hguard]
    rfl

/-- Output of a command that fills the log but for its last byte. -/
def fullOutput : ConsoleBuf := ⟨List.replicate (bootLogSize - 1) 0x61, by rw [List.length_replicate]; decide⟩

/-- **A command fills the log and fails**: the report of its exit code carries the position past the end. -/
theorem not_bootLog_staysInBounds_exit : ¬ BootLog.init.StaysInBounds [.exec, .consoleWrite fullOutput, .exit 1] := by
  have hlen : fullOutput.len = BitVec.ofNat 32 (bootLogSize - 1) := by
    unfold ConsoleBuf.len fullOutput
    rw [List.length_replicate]
  have hpos : ((BootLog.init.step .exec).step (.consoleWrite fullOutput)).pg_boot_log_pos =
      BitVec.ofNat 32 (bootLogSize - 1) := by
    rw [consoleWrite_pos rfl fullOutput (by rw [hlen]; decide), hlen]
    rfl
  rw [staysInBounds_iff init_terminated]
  intro h
  refine h [.exec, .consoleWrite fullOutput] (.exit 1) List.prefix_rfl ?_
  rintro (hcode | ⟨-, hfits⟩)
  · exact absurd hcode (by decide)
  · rw [List.foldl_cons, List.foldl_cons, List.foldl_nil, hpos] at hfits
    exact absurd hfits (by decide)

end PgLinux
