import PgLinux.Lib.Search
import PgLinux.Cpu
/-!
# ConsoleSearch — `vm_step_until` (`rv64_pgext.c`)

The guest is run in batches, and after each one the console is searched from a little before the place where it ended
before.  A batch is what the worker makes of `VM_CMD_STEP`: the bytes the guest writes to the UART, and the flags it
leaves behind.
-/
namespace PgLinux

open Search

/-! ## The console -/

def consoleBufSize : Nat := 1024 * 1024

/-- `console_buf` up to `console_pos`. -/
structure Console where
  chars : List U8
  fits : chars.length < consoleBufSize

def Console.pos (con : Console) : Nat := con.chars.length

/-- `pg_uart_tx`: the last byte of the buffer is kept for the NUL. -/
def pgUartTx (con : Console) (ch : U8) : Console :=
  if h : con.pos < consoleBufSize - 1 then
    ⟨con.chars ++ [ch], by rw [List.length_append, List.length_singleton]; exact Nat.add_lt_of_lt_sub h⟩
  else con

def Console.write (con : Console) (out : List U8) : Console := out.foldl pgUartTx con

theorem pgUartTx_extends (con : Console) (ch : U8) : con.chars <+: (pgUartTx con ch).chars := by
  unfold pgUartTx
  split
  · exact List.prefix_append _ _
  · exact List.prefix_rfl

theorem Console.write_prefix : ∀ (out : List U8) (con : Console), con.chars <+: (con.write out).chars
  | [], _ => List.prefix_rfl
  | ch :: out, con => (pgUartTx_extends con ch).trans (Console.write_prefix out (pgUartTx con ch))

/-! ## The search -/

structure Batch where
  output : List U8
  debug_halt : Bool
  error : Bool

/-- Where the search starts. -/
def scanFrom (patLen searchFrom : Nat) : Nat := if patLen ≤ searchFrom then searchFrom - patLen else searchFrom

/-- `memcmp` at `i`, for every `i` from `scan` up to `console_pos - pat_len`. -/
def scanConsole (con : Console) (pat : List U8) (scan : Nat) : Bool :=
  (List.range (con.pos + 1 - pat.length - scan)).any fun d => (con.chars.drop (scan + d)).take pat.length == pat

structure StepUntil where
  found : Bool
  iterations : Nat
  console : Console

/-- The snippet returned: the last 200 bytes at most. -/
def StepUntil.snippet (r : StepUntil) : List U8 := r.console.chars.drop (r.console.pos - 200)

/-- The loop with `n` batches to go. -/
def stepUntilLoop (pat : List U8) (run : Nat → Batch) : Nat → Nat → Console → Nat → Bool → StepUntil
  | 0, iterations, con, _, _ => ⟨false, iterations, con⟩
  | n + 1, iterations, con, searchFrom, error =>
    if error then ⟨false, iterations, con⟩
    else
      let b := run iterations
      let con' := con.write b.output
      if b.debug_halt then ⟨false, iterations + 1, con'⟩
      else if searchFrom < con'.pos ∧ 0 < pat.length then
        if scanConsole con' pat (scanFrom pat.length searchFrom) then ⟨true, iterations + 1, con'⟩
        else stepUntilLoop pat run n (iterations + 1) con' con'.pos b.error
      else stepUntilLoop pat run n (iterations + 1) con' searchFrom b.error

/-- `max_cycles / batch + 1`, where it is not negative. -/
def maxIterations (maxCycles : BitVec 64) : Nat := (maxCycles.toInt.tdiv 50000000 + 1).toNat

/-- `vm_step_until`; `error` is the machine's error when it is called. -/
def vmStepUntil (pat : List U8) (maxCycles : BitVec 64) (con : Console) (error : Bool) (run : Nat → Batch) : StepUntil :=
  stepUntilLoop pat run (maxIterations maxCycles) 0 con con.pos error

/-! ## The plain search -/

section Plain

variable (con : Console) (run : Nat → Batch)

/-- The console after `k` batches. -/
def consoleAt : Nat → Console
  | 0 => con
  | k + 1 => (consoleAt k).write (run k).output

/-- The pattern occurs, and its last byte came after the call. -/
def NewMatch (pat : List U8) (k : Nat) : Prop :=
  ∃ o, OccursAt (listCells (consoleAt con run k).chars) pat (consoleAt con run k).pos o ∧ con.pos < o + pat.length

variable (error : Bool)

/-- The machine's error before batch `k`. -/
def errorBefore : Nat → Bool
  | 0 => error
  | k + 1 => (run k).error

/-- Batch `k` is run, if no match ends the call before it. -/
def Runs (budget k : Nat) : Prop :=
  k < budget ∧ (∀ i, i ≤ k → errorBefore run error i = false) ∧ ∀ i, i < k → (run i).debug_halt = false

/-- Batch `k` is the first that completes a match. -/
def CompletesFirst (pat : List U8) (budget k : Nat) : Prop :=
  Runs run error budget k ∧ NewMatch con run pat (k + 1) ∧ ∀ i, i < k → ¬ NewMatch con run pat (i + 1)

/-- A match is reported exactly when there is one, and after the batch that completes the first. -/
def ReportsFirst (pat : List U8) (maxCycles : BitVec 64) : Prop :=
  ∀ k, ((vmStepUntil pat maxCycles con error run).found = true ∧
      (vmStepUntil pat maxCycles con error run).iterations = k + 1) ↔
    CompletesFirst con run error pat (maxIterations maxCycles) k

end Plain

/-! ## What the code searches -/

section Scan

variable {con : Console} {run : Nat → Batch} {error : Bool} {pat : List U8}

theorem scanConsole_iff (hpat : pat ≠ []) (scan : Nat) :
    scanConsole con pat scan = true ↔ ∃ o, scan ≤ o ∧ OccursAt (listCells con.chars) pat con.pos o := by
  unfold scanConsole
  rw [List.any_eq_true]
  constructor
  · rintro ⟨d, -, hd⟩
    exact ⟨scan + d, Nat.le_add_right _ _, (occursAt_iff_take hpat _).2 (eq_of_beq hd)⟩
  · rintro ⟨o, hle, ho⟩
    have hroom := ho.room
    refine ⟨o - scan, List.mem_range.2 (by omega), ?_⟩
    rw [Nat.add_sub_cancel' hle, beq_iff_eq]
    exact (occursAt_iff_take hpat o).1 ho

/-- The search after batch `k` finds something. -/
def Hits (con : Console) (run : Nat → Batch) (pat : List U8) (k : Nat) : Prop :=
  ((consoleAt con run k).pos < (consoleAt con run (k + 1)).pos ∧ 0 < pat.length) ∧
    scanConsole (consoleAt con run (k + 1)) pat (scanFrom pat.length (consoleAt con run k).pos) = true

theorem consoleAt_extends (k : Nat) : (consoleAt con run k).chars <+: (consoleAt con run (k + 1)).chars :=
  Console.write_prefix _ _

theorem consoleAt_mono {i : Nat} : ∀ {k : Nat}, i ≤ k → (consoleAt con run i).chars <+: (consoleAt con run k).chars
  | 0, h => by
    obtain rfl : i = 0 := by omega
    exact List.prefix_rfl
  | k + 1, h => by
    rcases Nat.lt_or_ge k i with hlt | hge
    · obtain rfl : i = k + 1 := by omega
      exact List.prefix_rfl
    · exact (consoleAt_mono hge).trans (consoleAt_extends k)

theorem pos_mono {i k : Nat} (h : i ≤ k) : (consoleAt con run i).pos ≤ (consoleAt con run k).pos :=
  (consoleAt_mono h).length_le

/-- The batches from `k` on, `n` of them, up to the first whose search finds something. -/
structure FoundIn (con : Console) (run : Nat → Batch) (error : Bool) (pat : List U8) (k n j : Nat) : Prop where
  from_start : k ≤ j
  in_budget : j < k + n
  no_error : ∀ i, k ≤ i → i ≤ j → errorBefore run error i = false
  no_halt : ∀ i, k ≤ i → i ≤ j → (run i).debug_halt = false
  hits : Hits con run pat j
  first : ∀ i, k ≤ i → i < j → ¬ Hits con run pat i

theorem foundIn_self {k n : Nat} (herr : errorBefore run error k = false) (hhalt : (run k).debug_halt = false)
    (hk : Hits con run pat k) : FoundIn con run error pat k (n + 1) k := by
  refine ⟨Nat.le_refl k, by omega, fun i hlo hhi => ?_, fun i hlo hhi => ?_, hk, fun i hlo hhi => by omega⟩
  · rwa [Nat.le_antisymm hhi hlo]
  · rwa [Nat.le_antisymm hhi hlo]

theorem foundIn_next {k n j : Nat} (herr : errorBefore run error k = false) (hhalt : (run k).debug_halt = false)
    (hk : ¬ Hits con run pat k) : FoundIn con run error pat (k + 1) n j ↔ FoundIn con run error pat k (n + 1) j := by
  constructor
  · intro h
    have hstart := h.from_start
    have hbudget := h.in_budget
    refine ⟨by omega, by omega, fun i hlo hhi => ?_, fun i hlo hhi => ?_, h.hits, fun i hlo hhi => ?_⟩ <;>
      rcases Nat.eq_or_lt_of_le hlo with rfl | hlt
    · exact herr
    · exact h.no_error i hlt hhi
    · exact hhalt
    · exact h.no_halt i hlt hhi
    · exact hk
    · exact h.first i hlt hhi
  · intro h
    have hbudget := h.in_budget
    have hne : j ≠ k := by
      rintro rfl
      exact hk h.hits
    have hlt : k + 1 ≤ j := by
      have := h.from_start
      omega
    exact ⟨hlt, by omega, fun i hlo => h.no_error i (by omega), fun i hlo => h.no_halt i (by omega), h.hits,
      fun i hlo => h.first i (by omega)⟩

/-- **The loop ends with a match exactly after the first batch whose search finds one.** -/
theorem stepUntilLoop_found (hpat : pat ≠ []) (j : Nat) : ∀ (n k : Nat),
    ((stepUntilLoop pat run n k (consoleAt con run k) (consoleAt con run k).pos (errorBefore run error k)).found = true ∧
      (stepUntilLoop pat run n k (consoleAt con run k) (consoleAt con run k).pos (errorBefore run error k)).iterations =
        j + 1) ↔ FoundIn con run error pat k n j
  | 0, k => by
    refine ⟨fun h => (nomatch h.1), fun h => ?_⟩
    have hstart := h.from_start
    have hbudget := h.in_budget
    omega
  | n + 1, k => by
    have hpos : (consoleAt con run k).pos ≤ (consoleAt con run (k + 1)).pos := pos_mono (Nat.le_succ k)
    unfold stepUntilLoop
    split
    next herr =>
      refine ⟨fun h => (nomatch h.1), fun h => ?_⟩
      cases herr.symm.trans (h.no_error k (Nat.le_refl k) h.from_start)
    next herr =>
      rw [Bool.not_eq_true] at herr
      have hnext : (consoleAt con run k).write (run k).output = consoleAt con run (k + 1) := rfl
      dsimp only
      rw [hnext]
      split
      next hhalt =>
        refine ⟨fun h => (nomatch h.1), fun h => ?_⟩
        cases hhalt.symm.trans (h.no_halt k (Nat.le_refl k) h.from_start)
      next hhalt =>
        rw [Bool.not_eq_true] at hhalt
        by_cases hk : Hits con run pat k
        · rw [if_pos hk.1, if_pos hk.2]
          constructor
          · rintro ⟨-, hj⟩
            obtain rfl : k = j := Nat.succ.inj hj
            exact foundIn_self herr hhalt hk
          · intro h
            refine ⟨rfl, ?_⟩
            have hstart := h.from_start
            rcases Nat.eq_or_lt_of_le hstart with rfl | hlt
            · rfl
            · exact absurd hk (h.first k (Nat.le_refl k) hlt)
        · rw [← foundIn_next herr hhalt hk, ← stepUntilLoop_found hpat j n (k + 1)]
          by_cases hgrown : (consoleAt con run k).pos < (consoleAt con run (k + 1)).pos ∧ 0 < pat.length
          · rw [if_pos hgrown, if_neg fun h => hk ⟨hgrown, h⟩]
            rfl
          · have hsame : (consoleAt con run (k + 1)).pos = (consoleAt con run k).pos := by
              have hlen := List.length_pos_iff.2 hpat
              omega
            rw [if_neg hgrown, hsame]
            rfl

/-- **The code reports a match after the first batch whose search finds one**, if it runs that far without a halt. -/
theorem vmStepUntil_found (hpat : pat ≠ []) (maxCycles : BitVec 64) (k : Nat) :
    ((vmStepUntil pat maxCycles con error run).found = true ∧
      (vmStepUntil pat maxCycles con error run).iterations = k + 1) ↔
    Runs run error (maxIterations maxCycles) k ∧ (run k).debug_halt = false ∧ Hits con run pat k ∧
      ∀ i, i < k → ¬ Hits con run pat i := by
  refine (stepUntilLoop_found hpat k (maxIterations maxCycles) 0).trans ⟨fun h => ?_, ?_⟩
  · have hbudget := h.in_budget
    refine ⟨⟨by omega, fun i hi => h.no_error i (Nat.zero_le i) hi, fun i hi => h.no_halt i (Nat.zero_le i) (by omega)⟩,
      h.no_halt k (Nat.zero_le k) (Nat.le_refl k), h.hits, fun i hi => h.first i (Nat.zero_le i) hi⟩
  · rintro ⟨⟨hbudget, herr, hhalt⟩, hk, hhit, hfirst⟩
    refine ⟨Nat.zero_le k, by omega, fun i _ hi => herr i hi, fun i _ hi => ?_, hhit, fun i _ hi => hfirst i hi⟩
    rcases Nat.eq_or_lt_of_le hi with rfl | hlt
    · exact hk
    · exact hhalt i hlt

/-! ## The condition -/

/-- The console ended with the pattern when the call began. -/
def EndsWith (con : Console) (pat : List U8) : Prop :=
  ∃ o, OccursAt (listCells con.chars) pat con.pos o ∧ o + pat.length = con.pos

/-- What the calls must meet for which the search is the plain one. -/
structure SearchIsPlain (con : Console) (run : Nat → Batch) (error : Bool) (pat : List U8) (budget : Nat) : Prop where
  /-- If the console ends with the pattern, the first batch that writes to it completes another match. -/
  fresh : EndsWith con pat → ∀ k, Runs run error budget k → (run k).debug_halt = false →
    (consoleAt con run k).pos = con.pos → con.pos < (consoleAt con run (k + 1)).pos → NewMatch con run pat (k + 1)
  /-- The first batch to complete a match does not halt, and where the console before it is shorter than the pattern it
  writes all of one. -/
  seen : ∀ k, CompletesFirst con run error pat budget k → (run k).debug_halt = false ∧
    ((consoleAt con run k).pos < pat.length →
      ∃ o, (consoleAt con run k).pos ≤ o ∧ OccursAt (listCells (consoleAt con run (k + 1)).chars) pat
        (consoleAt con run (k + 1)).pos o)

theorem NewMatch.mono {i k : Nat} (h : NewMatch con run pat i) (hik : i ≤ k) : NewMatch con run pat k := by
  obtain ⟨o, ho, hend⟩ := h
  exact ⟨o, ho.of_prefix (consoleAt_mono hik), hend⟩

/-- A match that is new after batch `k` and was not before it ends in what the batch wrote. -/
theorem ends_in_batch {k o : Nat} (hold : ∀ i, i < k → ¬ NewMatch con run pat (i + 1))
    (ho : OccursAt (listCells (consoleAt con run (k + 1)).chars) pat (consoleAt con run (k + 1)).pos o)
    (hend : con.pos < o + pat.length) : (consoleAt con run k).pos < o + pat.length := by
  refine Nat.lt_of_not_le fun hle => ?_
  have hk : OccursAt (listCells (consoleAt con run k).chars) pat (consoleAt con run k).pos o :=
    ho.of_grown (consoleAt_extends k) hle
  cases k with
  | zero => exact absurd hend (Nat.not_lt.2 hle)
  | succ i => exact hold i (Nat.lt_succ_self i) ⟨o, hk, hend⟩

/-- **A search that finds something where no match is new finds the pattern at the end of the first console.** -/
theorem hits_stale (hpat : pat ≠ []) {k : Nat} (hk : Hits con run pat k) (hnew : ¬ NewMatch con run pat (k + 1)) :
    EndsWith con pat ∧ (consoleAt con run k).pos = con.pos := by
  obtain ⟨o, hscan, ho⟩ := (scanConsole_iff hpat _).1 hk.2
  have hpos := hk.1.2
  have hstart : con.pos ≤ (consoleAt con run k).pos := pos_mono (i := 0) (Nat.zero_le k)
  have hstale : o + pat.length ≤ con.pos := Nat.le_of_not_lt fun hend => hnew ⟨o, ho, hend⟩
  unfold scanFrom at hscan
  split at hscan
  next hlong =>
    have hzero : OccursAt (listCells con.chars) pat con.pos o := ho.of_grown (consoleAt_mono (i := 0) (Nat.zero_le _)) hstale
    exact ⟨⟨o, hzero, by omega⟩, by omega⟩
  next hshort => omega

theorem hits_of_endsWith (hpat : pat ≠ []) (h : EndsWith con pat) {k : Nat}
    (hsame : (consoleAt con run k).pos = con.pos) (hgrown : con.pos < (consoleAt con run (k + 1)).pos) :
    Hits con run pat k := by
  obtain ⟨o, ho, hend⟩ := h
  refine ⟨⟨by omega, List.length_pos_iff.2 hpat⟩, (scanConsole_iff hpat _).2 ⟨o, ?_, ?_⟩⟩
  · unfold scanFrom
    rw [hsame, if_pos (by omega)]
    omega
  · exact ho.of_prefix (consoleAt_mono (i := 0) (Nat.zero_le _))

/-- **Where the first match is completed, the search finds it, or the console was too short to go back.** -/
theorem hits_first (hpat : pat ≠ []) {k : Nat} (hk : NewMatch con run pat (k + 1))
    (hold : ∀ i, i < k → ¬ NewMatch con run pat (i + 1)) :
    Hits con run pat k ↔ ((consoleAt con run k).pos < pat.length →
      ∃ o, (consoleAt con run k).pos ≤ o ∧ OccursAt (listCells (consoleAt con run (k + 1)).chars) pat
        (consoleAt con run (k + 1)).pos o) := by
  obtain ⟨o, ho, hend⟩ := hk
  have hlast := ends_in_batch hold ho hend
  have hroom := ho.room
  have hpos := List.length_pos_iff.2 hpat
  have hgrown : (consoleAt con run k).pos < (consoleAt con run (k + 1)).pos := by omega
  constructor
  · intro hhit hshort
    obtain ⟨o', hscan, ho'⟩ := (scanConsole_iff hpat _).1 hhit.2
    unfold scanFrom at hscan
    rw [if_neg (by omega)] at hscan
    exact ⟨o', hscan, ho'⟩
  · intro hwhole
    refine ⟨⟨hgrown, hpos⟩, (scanConsole_iff hpat _).2 ?_⟩
    unfold scanFrom
    split
    next hlong => exact ⟨o, by omega, ho⟩
    next hshort => exact hwhole (by omega)

/-- **The search is the plain one exactly in the calls that meet the condition.** -/
theorem reportsFirst_iff (hpat : pat ≠ []) (maxCycles : BitVec 64) :
    ReportsFirst con run error pat maxCycles ↔ SearchIsPlain con run error pat (maxIterations maxCycles) := by
  unfold ReportsFirst
  simp only [vmStepUntil_found hpat]
  constructor
  · intro h
    refine ⟨fun hends k hruns hhalt hsame hgrown => ?_, fun k hk => ?_⟩
    · have hquiet : ∀ i, i < k → ¬ Hits con run pat i := by
        intro i hi hhit
        have hle : con.pos ≤ (consoleAt con run i).pos := pos_mono (i := 0) (Nat.zero_le i)
        have hle' : (consoleAt con run (i + 1)).pos ≤ (consoleAt con run k).pos := pos_mono hi
        have := hhit.1.1
        omega
      exact ((h k).1 ⟨hruns, hhalt, hits_of_endsWith hpat hends hsame hgrown, hquiet⟩).2.1
    · obtain ⟨-, hhalt, hhit, -⟩ := (h k).2 hk
      exact ⟨hhalt, (hits_first hpat hk.2.1 hk.2.2).1 hhit⟩
  · intro h k
    -- a search that finds something finds a new match, at the first batch to complete one
    have hnew : ∀ i, Runs run error (maxIterations maxCycles) i → (run i).debug_halt = false → Hits con run pat i →
        NewMatch con run pat (i + 1) := by
      intro i hruns hhalt hhit
      refine Classical.byContradiction fun hno => ?_
      obtain ⟨hends, hsame⟩ := hits_stale hpat hhit hno
      exact hno (h.fresh hends i hruns hhalt hsame (hsame ▸ hhit.1.1))
    have hhit : ∀ i, CompletesFirst con run error pat (maxIterations maxCycles) i →
        (run i).debug_halt = false ∧ Hits con run pat i := by
      intro i hi
      obtain ⟨hhalt, hwhole⟩ := h.seen i hi
      exact ⟨hhalt, (hits_first hpat hi.2.1 hi.2.2).2 hwhole⟩
    have hbefore : ∀ {i}, i < k → Runs run error (maxIterations maxCycles) k → Runs run error (maxIterations maxCycles) i :=
      fun hi hr => ⟨by have := hr.1; omega, fun l hl => hr.2.1 l (by omega), fun l hl => hr.2.2 l (by omega)⟩
    constructor
    · rintro ⟨hruns, hhalt, hk, hfirst⟩
      refine ⟨hruns, hnew k hruns hhalt hk, ?_⟩
      intro i
      induction i using Nat.strongRecOn with
      | _ i ih =>
        intro hi hmatch
        exact hfirst i hi (hhit i ⟨hbefore hi hruns, hmatch, fun l hl => ih l hl (by omega)⟩).2
    · intro hk
      obtain ⟨hhalt, hhitk⟩ := hhit k hk
      refine ⟨hk.1, hhalt, hhitk, fun i hi hh => ?_⟩
      exact hk.2.2 i hi (hnew i (hbefore hi hk.1) (hk.1.2.2 i hi) hh)

/-- Every call with the pattern `"ok"` on a console that is empty. -/
theorem reportsFirst_iff_empty :
    ReportsFirst ⟨[], by decide⟩ (fun _ => ⟨[0x6f, 0x6b], false, false⟩) false [0x6f, 0x6b] 0 ↔
      SearchIsPlain ⟨[], by decide⟩ (fun _ => ⟨[0x6f, 0x6b], false, false⟩) false [0x6f, 0x6b] (maxIterations 0) :=
  reportsFirst_iff (by decide) 0

end Scan

/-! ## Where it is not the plain one -/

/-- A console that ends with `a`, and a guest that writes `b`. -/
def staleConsole : Console := ⟨[0x61], by decide⟩

def writesB (_ : Nat) : Batch := ⟨[0x62], false, false⟩

/-- **Looking for `a`, the old `a` is reported; looking for `ab`, the new match is missed.** -/
theorem not_reportsFirst : ¬ ReportsFirst staleConsole writesB false [0x61] 0 ∧
    ¬ ReportsFirst staleConsole writesB false [0x61, 0x62] 0 := by
  constructor
  · intro h
    obtain ⟨-, ⟨o, ho, hend⟩, -⟩ := (h 0).1 ⟨by decide, by decide⟩
    have hroom : o + 1 ≤ 2 := ho.room
    have hlast : 1 < o + 1 := hend
    obtain rfl : o = 1 := by omega
    exact absurd (ho.cells 0 0x61 rfl) (by decide)
  · intro h
    have hocc : OccursAt (listCells (consoleAt staleConsole writesB 1).chars) [0x61, 0x62] 2 0 :=
      (occursAt_iff_take (l := [0x61, 0x62]) (by decide) 0).2 rfl
    have hfirst : CompletesFirst staleConsole writesB false [0x61, 0x62] (maxIterations 0) 0 :=
      ⟨⟨by decide, fun i hi => by rw [Nat.le_zero.1 hi]; rfl, fun i hi => by omega⟩, ⟨0, hocc, by decide⟩, fun i hi => by omega⟩
    exact absurd ((h 0).2 hfirst).1 (by decide)

end PgLinux
