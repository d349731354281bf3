import PgLinux.TrapReturn
/-!
# IrqSelection — which interrupt `check_interrupts` takes

A pending and enabled interrupt that is not delegated goes to M-mode, one that is goes to S-mode, and those for M-mode come
first.  The source searches one list for both, and its entries for the S-level interrupts can only be taken when they
are delegated.
-/
namespace PgLinux

/-! ## The rule -/

/-- The number of an interrupt, its bit in `mip`, `mie` and `mideleg`. -/
abbrev Irq := BitVec 6

/-- MEI, MSI, MTI, SEI, SSI and STI, by priority. -/
def irqOrder : List Irq := [11, 3, 7, 9, 1, 5]

def irqCause (i : Irq) : U64 := i.setWidth 64 ||| 1 <<< 63

def mLevel (i : Irq) : Bool := i == 11 || i == 3 || i == 7

section Rule

variable (c : Cpu)

/-- Pending and enabled. -/
def irqActive (i : Irq) : Bool := c.csr.mip.getLsbD i.toNat && c.csr.mie.getLsbD i.toNat

def irqDelegated (i : Irq) : Bool := c.csr.mideleg.getLsbD i.toNat

/-- Whether the mode lets interrupts to M through. -/
def openToM : Bool := decide (c.priv < privM) || (c.priv == privM && c.csr.mstatus.getLsbD 3)

def openToS : Bool := decide (c.priv < privS) || (c.priv == privS && c.csr.mstatus.getLsbD 1)

def dueToM (i : Irq) : Bool := irqActive c i && !irqDelegated c i && openToM c
def dueToS (i : Irq) : Bool := irqActive c i && irqDelegated c i && openToS c

/-- The interrupt to take: the first of those for M, or else of those for S. -/
def irqDue : Option Irq := (irqOrder.find? (dueToM c)).or (irqOrder.find? (dueToS c))

/-- Of the interrupts due to M-mode, the first is M-level, and before it none is due to S-mode. -/
def IrqsApart : Prop := ∀ i, irqOrder.find? (dueToM c) = some i →
  mLevel i = true ∧ ∀ j ∈ irqOrder.takeWhile (fun j => !dueToM c j), dueToS c j = false

/-- Taking an interrupt, or none. -/
def takeIrq : Option Irq → Cpu × Bool
  | some i => ({ trap c (irqCause i) 0 with halted := false }, true)
  | none => (c, false)

end Rule

section Select

variable [NetDevice]

/-- The machine in which `check_interrupts` looks for an interrupt. -/
def beforeSelect (c : Cpu) : Cpu := pollNet (updateMip c)

/-- `check_interrupts` takes the interrupt that is due, if any is. -/
def SelectsDue (c : Cpu) : Prop := checkInterrupts c = takeIrq (beforeSelect c) (irqDue (beforeSelect c))

end Select

/-! ## Two searches in one -/

/-- One search for `p`, where `m` allows it, and `q` finds what a search for `p` and then one for `q` find exactly when
`m` allows the first `p` and no `q` comes before it. -/
theorem find?_merge_iff {α : Type} {p m q : α → Bool} (hpq : ∀ x, p x = true → q x = false) :
    ∀ l : List α, l.Nodup → (l.find? (fun x => m x && p x || q x) = (l.find? p).or (l.find? q) ↔
      ∀ x, l.find? p = some x → m x = true ∧ ∀ y ∈ l.takeWhile (fun y => !p y), q y = false)
  | [], _ => by simp
  | a :: l, hl => by
    obtain ⟨hal, hl⟩ := List.nodup_cons.1 hl
    have hnot (f : α → Bool) : l.find? f ≠ some a := fun h => hal (List.mem_of_find?_eq_some h)
    cases hp : p a with
    | true =>
      have hq := hpq a hp
      cases hm : m a with
      | true => simp [hp, hm, hq]
      | false => simpa [hp, hm, hq] using hnot fun x => m x && p x || q x
    | false =>
      cases hq : q a with
      | true =>
        cases hf : l.find? p with
        | none => simp [hp, hq, hf]
        | some x =>
          have hne : a ≠ x := fun h => hnot p (h ▸ hf)
          simp [hp, hq, hf, hne]
      | false =>
        have ih := find?_merge_iff hpq l hl (m := m)
        simp [hp, hq, ih]

/-! ## The code's search -/

def irqMask (i : Irq) : U64 := (1 : U64) <<< i.toNat

theorem and_irqMask (v : U64) (i : Irq) : (v &&& irqMask i != 0) = v.getLsbD i.toNat := by
  have hlt : i.toNat < 64 := i.isLt
  have hne : BitVec.twoPow 64 i.toNat ≠ 0 := fun h => by
    have hbit := congrArg (fun v => v.getLsbD i.toNat) h
    simp [hlt] at hbit
  rw [show irqMask i = BitVec.twoPow 64 i.toNat from (BitVec.twoPow_eq ..).symm, BitVec.and_twoPow]
  cases v.getLsbD i.toNat with
  | true => simpa using hne
  | false => simp

theorem irqs_eq : irqs = irqOrder.map fun i => (irqMask i, irqCause i, mLevel i) := by decide

theorem irqCause_inj {i j : Irq} (h : irqCause i = irqCause j) : i = j := by
  revert i j
  decide +kernel

section Search

variable {c : Cpu}

theorem dueToS_of_dueToM {i : Irq} (h : dueToM c i = true) : dueToS c i = false := by
  unfold dueToM at h
  unfold dueToS
  revert h
  cases irqDelegated c i <;> simp

/-- The test of the loop body. -/
theorem irq_test (i : Irq) : (c.csr.mip &&& c.csr.mie &&& irqMask i != 0 && irqTaken c (irqMask i) (mLevel i)) =
    (mLevel i && dueToM c i || dueToS c i) := by
  have hmask : (c.csr.mideleg &&& irqMask i == 0) = !irqDelegated c i := by
    rw [irqDelegated, ← and_irqMask, bne, Bool.not_not]
  unfold irqTaken dueToM dueToS
  rw [and_irqMask, and_irqMask, hmask, BitVec.getLsbD_and, ← irqActive]
  show (irqActive c i && (mLevel i && !irqDelegated c i && openToM c || irqDelegated c i && openToS c)) = _
  cases irqActive c i <;> simp [Bool.and_assoc]

theorem selectIrq_eq : selectIrq c = (irqOrder.find? fun i => mLevel i && dueToM c i || dueToS c i).map irqCause := by
  unfold selectIrq
  rw [irqs_eq, List.find?_map, Option.map_map]
  have htest := funext fun i => irq_test (c := c) i
  exact congrArg (fun f => (irqOrder.find? f).map irqCause) htest

/-- **The code's search finds the interrupt that is due exactly when the two searches of the rule do not cross.** -/
theorem selectIrq_due : selectIrq c = (irqDue c).map irqCause ↔ IrqsApart c := by
  have hinj : Function.Injective irqCause := fun _ _ => irqCause_inj
  rw [selectIrq_eq, (Option.map_injective hinj).eq_iff]
  exact find?_merge_iff (fun _ => dueToS_of_dueToM) irqOrder (by decide)

end Search

section Select

variable [NetDevice]

/-- **`check_interrupts` takes the interrupt that is due exactly when the interrupts for the two modes do not cross.** -/
theorem selectsDue_iff (c : Cpu) : SelectsDue c ↔ IrqsApart (beforeSelect c) := by
  rw [← selectIrq_due]
  unfold SelectsDue checkInterrupts beforeSelect
  generalize pollNet (updateMip c) = d
  dsimp only
  constructor
  · intro h
    cases hs : selectIrq d with
    | none =>
      rw [hs] at h
      cases hd : irqDue d with
      | none => rfl
      | some i =>
        rw [hd] at h
        cases congrArg Prod.snd h
    | some cause =>
      rw [hs] at h
      cases hd : irqDue d with
      | none =>
        rw [hd] at h
        cases congrArg Prod.snd h
      | some i =>
        rw [hd] at h
        have htrap : { trap d cause 0 with halted := false } = { trap d (irqCause i) 0 with halted := false } :=
          congrArg Prod.fst h
        have hpriv := congrArg Cpu.priv htrap
        have hcsr := congrArg Cpu.csr htrap
        rw [trap_cause_inj hpriv hcsr]
        rfl
  · intro h
    rw [h]
    cases irqDue d <;> rfl

end Select

/-! ## An interrupt that is never taken -/

section Undelegated

local instance undelegatedNet : NetDevice := NetDevice.silent

/-- User mode with `irqs` pending and enabled. -/
def irqUser (irqs mideleg : U64) : Cpu :=
  { rv64Init (fun _ => 0) 0x1000 with
    priv := privU
    csr := { Csr.zero with mip := irqs, mie := irqs, mideleg := mideleg, stimecmp := 0xFFFFFFFFFFFFFFFF } }

/-- A supervisor software interrupt that is not delegated. -/
theorem not_selectsDue_undelegated : ¬ SelectsDue (irqUser (1 <<< 1) 0) := by
  intro h
  have htaken := congrArg Prod.snd h
  revert htaken
  decide +kernel

/-- A delegated machine external interrupt keeps one that is not delegated waiting. -/
example : irqDue (irqUser (1 <<< 11 ||| 1 <<< 3) (1 <<< 11)) = some 3 ∧
    selectIrq (irqUser (1 <<< 11 ||| 1 <<< 3) (1 <<< 11)) = some (irqCause 11) := by decide +kernel

end Undelegated

end PgLinux
