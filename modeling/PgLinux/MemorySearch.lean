import PgLinux.Lib.Search
import PgLinux.Lib.Loops
import PgLinux.FlatGuest
import PgLinux.MachineMode
/-!
# MemorySearch — `vm_find` (`rv64_pgext.c`)

The scan keeps a candidate and how much of the pattern it has found there.  A byte that does not match sends it back
to the address after the candidate, and a byte that cannot be read sends it on past that byte.
-/
namespace PgLinux

open Search Loops

/-- `rv64_jit_load` of one byte: `none` for an exception. -/
def jitLoadByte [NetDevice] (c : Cpu) (a : U64) : Option U64 × Cpu :=
  match rv64CpuLoad a 1 .read c with
  | .ok v d => (some v, d)
  | .error _ d => (none, d)

/-- The variables of the loop, and the machine its loads go through. -/
structure FindLoop (σ : Type) where
  i : Int
  match_pos : Nat
  cpu : σ

section VmFind

variable {σ : Type} (load : σ → U64 → Option U64 × σ) (pat : List U8) (start : U64) (length : BitVec 32)

/-- One round of the `for` loop, with its `i++`. -/
def vmFindPass (_ : Unit) (s : FindLoop σ) : Pass (FindLoop σ) (Option U64) :=
  if s.i < length.toInt then
    let r := load s.cpu (start + BitVec.ofInt 64 s.i)
    match r.1 with
    | none => .again ⟨s.i + 1, 0, r.2⟩
    | some val =>
      if pat[s.match_pos]? = some (val.setWidth 8) then
        if s.match_pos + 1 = pat.length then
          .exit (some (start + BitVec.ofInt 64 s.i - BitVec.ofNat 64 pat.length + 1))
        else .again ⟨s.i + 1, s.match_pos + 1, r.2⟩
      else if 0 < s.match_pos then .again ⟨s.i - s.match_pos + 1, 0, r.2⟩
      else .again ⟨s.i + 1, s.match_pos, r.2⟩
  else .exit none

/-- `vm_find` after `k` rounds. -/
def vmFind (cpu : σ) (k : Nat) : Pass (FindLoop σ) (Option U64) :=
  if pat.length = 0 ∨ length.toInt < pat.length then .exit none
  else after (vmFindPass load pat start length) (fun _ => ()) ⟨0, 0, cpu⟩ k

/-! ## What is searched for -/

/-- The bytes of the range, by their distance from its start. -/
def rangeText (m : U64 → Option U8) (i : Nat) : Option U8 := m (start + BitVec.ofNat 64 i)

/-- The cells of `[start, start + length)`: none for a negative length. -/
def rangeLength : Nat := length.toInt.toNat

/-- All the pattern's bytes lie in the range from address `a` on, are readable and equal it. -/
def MatchAt (m : U64 → Option U8) (a : U64) : Prop :=
  ∃ o, a = start + BitVec.ofNat 64 o ∧ OccursAt (rangeText start m) pat (rangeLength length) o

/-- Loads in the range have no effect that later loads see, and return the bytes of `m`. -/
def ByteLoads (m : U64 → Option U8) (Ok : σ → Prop) : Prop :=
  ∀ s i, Ok s → i < rangeLength length →
    (load s (start + BitVec.ofNat 64 i)).1.map (·.setWidth 8) = m (start + BitVec.ofNat 64 i) ∧
      Ok (load s (start + BitVec.ofNat 64 i)).2

end VmFind

/-! ## The loop -/

section Loop

variable {σ : Type} {load : σ → U64 → Option U64 × σ} {pat : List U8} {start : U64} {length : BitVec 32}
  {m : U64 → Option U8} {Ok : σ → Prop}

theorem rangeLength_lt : rangeLength length < 2 ^ 31 := by
  have h := BitVec.toInt_lt (x := length)
  unfold rangeLength
  omega

/-- The loop at cell `n`, with its partial match. -/
structure FindLoop.At (start : U64) (length : BitVec 32) (pat : List U8) (m : U64 → Option U8) (Ok : σ → Prop)
    (s : FindLoop σ) (n : Nat) : Prop where
  i : s.i = n
  ok : Ok s.cpu
  scanned : Scanned (rangeText start m) pat (rangeLength length) n s.match_pos

def FindLoop.Inv (start : U64) (length : BitVec 32) (pat : List U8) (m : U64 → Option U8) (Ok : σ → Prop)
    (s : FindLoop σ) : Prop := ∃ n, s.At start length pat m Ok n

/-- The candidate moves on, or stays and more of the pattern is found. -/
def FindLoop.progress (length : BitVec 32) (pat : List U8) (s : FindLoop σ) : Nat × Nat :=
  (rangeLength length - (s.i - s.match_pos).toNat, pat.length - s.match_pos)

def FindLoop.Nearer (length : BitVec 32) (pat : List U8) : FindLoop σ → FindLoop σ → Prop :=
  InvImage (Prod.Lex (· < ·) (· < ·)) (FindLoop.progress length pat)

theorem nearer_wf : WellFounded (FindLoop.Nearer (σ := σ) length pat) :=
  InvImage.wf _ (WellFounded.prod_lex Nat.lt_wfRel.wf Nat.lt_wfRel.wf)

theorem nearer_later {s t : FindLoop σ} {n k : Nat} (hs : s.i = n) (ht : t.i = k) (hlt : n < rangeLength length)
    (hback : s.match_pos ≤ n) (hle : n - s.match_pos < k - t.match_pos) : FindLoop.Nearer length pat t s := by
  refine Prod.Lex.left _ _ ?_
  rw [hs, ht]
  omega

theorem nearer_more {s t : FindLoop σ} {n : Nat} (hs : s.i = n) (ht : t.i = (n + 1 : Nat))
    (hmore : t.match_pos = s.match_pos + 1) (hproper : s.match_pos < pat.length) : FindLoop.Nearer length pat t s := by
  have hcand : (t.i - t.match_pos).toNat = (s.i - s.match_pos).toNat := by
    rw [hs, ht, hmore]
    omega
  unfold FindLoop.Nearer InvImage FindLoop.progress
  rw [hcand]
  exact Prod.Lex.right _ (by omega)

theorem found_addr {n k : Nat} (h : k ≤ n) :
    start + BitVec.ofNat 64 n - BitVec.ofNat 64 (k + 1) + 1 = start + BitVec.ofNat 64 (n - k) := by
  obtain ⟨d, rfl⟩ := Nat.exists_eq_add_of_le h
  rw [Nat.add_sub_cancel_left, BitVec.ofNat_add, BitVec.ofNat_add]
  bv_omega

/-- **One round**: the loop goes on, nearer to its end, or it returns the first match, or there is none. -/
theorem vmFindPass_cases (hload : ByteLoads load start length m Ok) {s : FindLoop σ} {n : Nat}
    (h : s.At start length pat m Ok n) :
    (∃ t k, vmFindPass load pat start length () s = .again t ∧ t.At start length pat m Ok k ∧
      FindLoop.Nearer length pat t s) ∨
    (∃ o, vmFindPass load pat start length () s = .exit (some (start + BitVec.ofNat 64 o)) ∧
      FirstAt (rangeText start m) pat (rangeLength length) o) ∨
    vmFindPass load pat start length () s = .exit none ∧
      ∀ o, ¬ OccursAt (rangeText start m) pat (rangeLength length) o := by
  have hn : s.i < length.toInt ↔ n < rangeLength length := by
    rw [h.i]
    unfold rangeLength
    omega
  have haddr : start + BitVec.ofInt 64 s.i = start + BitVec.ofNat 64 n := by
    rw [h.i]
    rfl
  unfold vmFindPass
  by_cases hlt : n < rangeLength length
  · obtain ⟨hbyte, hok⟩ := hload s.cpu n h.ok hlt
    have hback := h.scanned.back
    have hproper := h.scanned.proper
    rw [if_pos (hn.2 hlt), haddr]
    dsimp only
    cases hr : (load s.cpu (start + BitVec.ofNat 64 n)).1 with
    | none =>
      rw [hr] at hbyte
      have hi : s.i + 1 = (n + 1 : Nat) := by rw [h.i]; rfl
      exact .inl ⟨_, n + 1, rfl, ⟨hi, hok, h.scanned.hole hbyte.symm⟩, nearer_later h.i hi hlt hback (by dsimp only; omega)⟩
    | some v =>
      rw [hr] at hbyte
      have htext : rangeText start m n = some (v.setWidth 8) := hbyte.symm
      dsimp only
      split
      next hhit =>
        split
        next hlast =>
          refine .inr (.inl ⟨n - s.match_pos, ?_, h.scanned.complete hlt htext hhit hlast⟩)
          rw [← hlast, found_addr hback]
        next hmore =>
          have hi : s.i + 1 = (n + 1 : Nat) := by rw [h.i]; rfl
          exact .inl ⟨_, n + 1, rfl, ⟨hi, hok, h.scanned.hit htext hhit hmore⟩, nearer_more h.i hi rfl hproper⟩
      next hmiss =>
        have hscan := h.scanned.miss htext hmiss
        split
        next hpos =>
          have hi : s.i - s.match_pos + 1 = (n - s.match_pos + 1 : Nat) := by rw [h.i]; omega
          exact .inl ⟨_, _, rfl, ⟨hi, hok, hscan⟩, nearer_later h.i hi hlt hback (by dsimp only; omega)⟩
        next hzero =>
          have h0 : s.match_pos = 0 := by omega
          have hi : s.i + 1 = (n + 1 : Nat) := by rw [h.i]; rfl
          rw [h0, Nat.sub_zero] at hscan
          rw [h0]
          exact .inl ⟨_, n + 1, rfl, ⟨hi, hok, hscan⟩, nearer_later h.i hi hlt hback (by dsimp only; omega)⟩
  · rw [if_neg (fun hi => hlt (hn.1 hi))]
    exact .inr (.inr ⟨rfl, h.scanned.exhausted (by omega)⟩)

/-- What a search should return. -/
def FoundFirst (start : U64) (length : BitVec 32) (pat : List U8) (m : U64 → Option U8) : Option U64 → Prop
  | some a => ∃ o, a = start + BitVec.ofNat 64 o ∧ FirstAt (rangeText start m) pat (rangeLength length) o
  | none => ∀ o, ¬ OccursAt (rangeText start m) pat (rangeLength length) o

/-- **The loop returns the first match of the range, or nothing where there is none.** -/
theorem vmFind_first (hload : ByteLoads load start length m Ok) (hpat : pat ≠ []) {cpu : σ} (hok : Ok cpu) :
    ∃ r, (∃ k, ∀ j, vmFind load pat start length cpu (k + j) = .exit r) ∧ FoundFirst start length pat m r := by
  have hpos : 0 < pat.length := List.length_pos_iff.2 hpat
  by_cases hfit : length.toInt < pat.length
  · refine ⟨none, ⟨0, fun j => if_pos (.inr hfit)⟩, fun o ho => ?_⟩
    have hroom := ho.room
    unfold rangeLength at hroom
    omega
  · have hloop : ∀ k, vmFind load pat start length cpu k =
        after (vmFindPass load pat start length) (fun _ => ()) ⟨0, 0, cpu⟩ k := fun k => if_neg (by omega)
    have hstart : FindLoop.Inv start length pat m Ok ⟨0, 0, cpu⟩ := ⟨0, rfl, hok, .start hpat⟩
    have hpass : ∀ i u v, FindLoop.Inv start length pat m Ok u → vmFindPass load pat start length i u = .again v →
        FindLoop.Inv start length pat m Ok v ∧ FindLoop.Nearer length pat v u := by
      rintro ⟨⟩ u v ⟨n, hu⟩ hv
      obtain ⟨t, k, ht, hat, hnear⟩ | ⟨o, ht, -⟩ | ⟨ht, -⟩ := vmFindPass_cases hload hu <;> rw [ht] at hv
      · obtain rfl := Pass.again.inj hv
        exact ⟨⟨k, hat⟩, hnear⟩
      · cases hv
      · cases hv
    obtain ⟨k, r, hk⟩ := returns_of_wellFounded nearer_wf hpass hstart
    refine ⟨r, ⟨k, fun j => by rw [hloop, after_le_of_exit hk]⟩, ?_⟩
    refine exit_of_invariant (Q := FoundFirst start length pat m) (fun i u v hu hv => (hpass i u v hu hv).1) ?_ hstart hk
    rintro ⟨⟩ u r ⟨n, hu⟩ hr
    obtain ⟨t, k, ht, -⟩ | ⟨o, ht, hfirst⟩ | ⟨ht, hnone⟩ := vmFindPass_cases hload hu <;> rw [ht] at hr
    · cases hr
    · obtain rfl := Pass.exit.inj hr
      exact ⟨o, rfl, hfirst⟩
    · obtain rfl := Pass.exit.inj hr
      exact hnone

/-- An occurrence is as far from the start of the range as its cell says. -/
theorem distance {o : Nat} (ho : OccursAt (rangeText start m) pat (rangeLength length) o) :
    (start + BitVec.ofNat 64 o - start).toNat = o := by
  have hroom := ho.room
  have hlt : rangeLength length < 2 ^ 31 := rangeLength_lt
  rw [add_sub_self, BitVec.toNat_ofNat, Nat.mod_eq_of_lt (by omega)]

/-- **The search terminates, and returns the first address of the range where the pattern matches**: no other match is
nearer to the start, and none is below it where the range does not run past the top of the address space. -/
theorem vmFind_least (hload : ByteLoads load start length m Ok) (hpat : pat ≠ []) {cpu : σ} (hok : Ok cpu) :
    ∃ r, (∃ k, ∀ j, vmFind load pat start length cpu (k + j) = .exit r) ∧
      (r = none ↔ ∀ a, ¬ MatchAt pat start length m a) ∧
      ∀ a, r = some a → MatchAt pat start length m a ∧ ∀ b, MatchAt pat start length m b →
        (a - start).toNat ≤ (b - start).toNat ∧ (start.toNat + rangeLength length ≤ 2 ^ 64 → a.toNat ≤ b.toNat) := by
  obtain ⟨r, hreturns, hr⟩ := vmFind_first hload hpat hok
  refine ⟨r, hreturns, ?_, ?_⟩
  · cases r with
    | none => exact ⟨fun _ a ⟨o, _, ho⟩ => hr o ho, fun _ => rfl⟩
    | some a =>
      obtain ⟨o, rfl, hfirst⟩ := hr
      exact ⟨nofun, fun hnone => absurd ⟨o, rfl, hfirst.occurs⟩ (hnone _)⟩
  · rintro a rfl
    obtain ⟨o, rfl, hfirst⟩ := hr
    refine ⟨⟨o, rfl, hfirst.occurs⟩, ?_⟩
    rintro b ⟨o', rfl, ho'⟩
    have hle := hfirst.le ho'
    rw [distance hfirst.occurs, distance ho']
    refine ⟨hle, fun htop => ?_⟩
    have hpos : 0 < pat.length := List.length_pos_iff.2 hpat
    have hroom := ho'.room
    rw [BitVec.toNat_add, BitVec.toNat_add, BitVec.toNat_ofNat, BitVec.toNat_ofNat]
    omega

end Loop

/-! ## On the machine -/

/-- **In machine mode a byte load of RAM returns the byte and changes nothing.** -/
theorem FlatMachine.byteLoads [NetDevice] {ram : Mem} {size start : U64} {length : BitVec 32}
    (hram : ∀ i, i < rangeLength length → inRam size (start + BitVec.ofNat 64 i) = true) :
    ByteLoads jitLoadByte start length (fun a => some (ram (a - ramBase)))
      fun c => FlatMachine ram size c ∧ c.tlb = .zero ∧ c.priv = privM := by
  rintro c i ⟨hc, htlb, hpriv⟩ hi
  have hmiss : loadFast c (start + BitVec.ofNat 64 i) 1 .read = none := by
    have hte : c.tlbEntry (start + BitVec.ofNat 64 i) = .zero := by
      unfold Cpu.tlbEntry
      rw [htlb]
      rfl
    unfold loadFast
    rw [hte]
    rfl
  have hbyte := rv64CpuLoad_machine hpriv hmiss (crossesPage_one _) (by rw [hc.size]; exact hram i hi)
  unfold jitLoadByte
  rw [hbyte]
  refine ⟨?_, hc, htlb, hpriv⟩
  rw [hc.ram]
  simp [Mem.read]

section Example

local instance findNet : NetDevice := NetDevice.silent

/-- `aab` in a RAM that begins with `aaab`: the scan has to go back. -/
theorem vmFind_least_text :
    ∃ r, (∃ k, ∀ j, vmFind jitLoadByte [0x61, 0x61, 0x62] ramBase 8 (textCpu [0x62616161]) (k + j) = .exit r) ∧
      (r = none ↔ ∀ a, ¬ MatchAt [0x61, 0x61, 0x62] ramBase 8 (fun a => some (textRam [0x62616161] (a - ramBase))) a) ∧
      ∀ a, r = some a →
        MatchAt [0x61, 0x61, 0x62] ramBase 8 (fun a => some (textRam [0x62616161] (a - ramBase))) a ∧
        ∀ b, MatchAt [0x61, 0x61, 0x62] ramBase 8 (fun a => some (textRam [0x62616161] (a - ramBase))) b →
          (a - ramBase).toNat ≤ (b - ramBase).toNat ∧
            (ramBase.toNat + rangeLength 8 ≤ 2 ^ 64 → a.toNat ≤ b.toNat) :=
  vmFind_least (@FlatMachine.byteLoads _ _ 0x1000 _ _ (by decide)) (by decide)
    ⟨⟨.inl ⟨rfl, rfl⟩, rfl, rfl, rfl, rfl⟩, rfl, rfl⟩

end Example

end PgLinux
