import PgLinux.Lib.Search
/-!
# Fdt — flattened device trees

A blob is its bytes by offset.  Its structure block is a sequence of tokens, each padded to words of four bytes, and the
names of properties stand in its strings block.  The fields and blocks that are not described here are free.
-/
namespace Fdt

open Search

abbrev Byte := BitVec 8
abbrev Blob := Nat → Byte

/-! ## Bytes and words -/

/-- Big-endian. -/
def be32 (w : BitVec 32) : List Byte :=
  [(w >>> 24).setWidth 8, (w >>> 16).setWidth 8, (w >>> 8).setWidth 8, w.setWidth 8]

def Blob.word (b : Blob) (o : Nat) : BitVec 32 := (b o ++ b (o + 1) ++ b (o + 2) ++ b (o + 3) : BitVec 32)

/-- The bytes stand at `o`. -/
def Blob.Holds (b : Blob) (o : Nat) (l : List Byte) : Prop := ∀ i x, l[i]? = some x → b (o + i) = x

section Bytes

variable {b : Blob} {o : Nat} {l m : List Byte}

theorem Blob.holds_append : b.Holds o (l ++ m) ↔ b.Holds o l ∧ b.Holds (o + l.length) m := by
  constructor
  · intro h
    constructor
    · intro i x hx
      have hi : i < l.length := (List.getElem?_eq_some_iff.1 hx).1
      exact h i x (by rw [List.getElem?_append_left hi, hx])
    · intro i x hx
      rw [Nat.add_assoc]
      exact h _ x (by rw [List.getElem?_append_right (Nat.le_add_right _ _), Nat.add_sub_cancel_left, hx])
  · rintro ⟨hl, hm⟩ i x hx
    rcases Nat.lt_or_ge i l.length with hi | hi
    · exact hl i x (by rwa [List.getElem?_append_left hi] at hx)
    · rw [List.getElem?_append_right hi] at hx
      have h := hm _ x hx
      rwa [Nat.add_assoc, Nat.add_sub_cancel' hi] at h

theorem be32_append (w : BitVec 32) :
    ((w >>> 24).setWidth 8 ++ (w >>> 16).setWidth 8 ++ (w >>> 8).setWidth 8 ++ w.setWidth 8 : BitVec 32) = w := by
  refine BitVec.eq_of_getLsbD_eq fun i hi => ?_
  simp only [BitVec.getLsbD_append, BitVec.getLsbD_setWidth, BitVec.getLsbD_ushiftRight]
  rcases Nat.lt_or_ge i 8 with h | h
  · simp [h]
  rcases Nat.lt_or_ge i 16 with h2 | h2
  · have hlt : i - 8 < 8 := by omega
    have hadd : 8 + (i - 8) = i := by omega
    simp [Nat.not_lt.2 h, hlt, hadd]
  rcases Nat.lt_or_ge i 24 with h3 | h3
  · have hge : ¬ i - 8 < 8 := by omega
    have hlt : i - 8 - 8 < 8 := by omega
    have hadd : 16 + (i - 8 - 8) = i := by omega
    simp [Nat.not_lt.2 h, hge, hlt, hadd]
  · have hge : ¬ i - 8 < 8 := by omega
    have hge' : ¬ i - 8 - 8 < 8 := by omega
    have hlt : i - 8 - 8 - 8 < 8 := by omega
    have hadd : 24 + (i - 8 - 8 - 8) = i := by omega
    simp [Nat.not_lt.2 h, hge, hge', hlt, hadd]

theorem Blob.Holds.word {w : BitVec 32} (h : b.Holds o (be32 w)) : b.word o = w := by
  unfold Blob.word
  rw [show b o = _ from h 0 _ rfl, show b (o + 1) = _ from h 1 _ rfl, show b (o + 2) = _ from h 2 _ rfl,
    show b (o + 3) = _ from h 3 _ rfl]
  exact be32_append w

/-- The first byte and the last of a word. -/
theorem Blob.word_bytes (b : Blob) (o : Nat) : (b.word o >>> 24).setWidth 8 = b o ∧ (b.word o).setWidth 8 = b (o + 3) := by
  unfold Blob.word
  constructor
  · refine BitVec.eq_of_getLsbD_eq fun i hi => ?_
    have h1 : ¬ 24 + i < 8 := by omega
    have h2 : ¬ 24 + i - 8 < 8 := by omega
    have h3 : ¬ 24 + i - 8 - 8 < 8 := by omega
    have h4 : 24 + i - 8 - 8 - 8 = i := by omega
    simp only [BitVec.getLsbD_append, BitVec.getLsbD_setWidth, BitVec.getLsbD_ushiftRight]
    simp [hi, h1, h2, h3, h4]
  · refine BitVec.eq_of_getLsbD_eq fun i hi => ?_
    simp only [BitVec.getLsbD_append, BitVec.getLsbD_setWidth]
    simp [hi]

end Bytes

/-! ## Tokens -/

/-- The value of a property comes with its length; a name ends in NUL. -/
inductive Token where
  | beginNode (name : List Byte)
  | endNode
  | prop (nameoff : BitVec 32) (value : List Byte)
  | nop
deriving DecidableEq

def padding (n : Nat) : List Byte := List.replicate ((4 - n % 4) % 4) 0

def Token.bytes : Token → List Byte
  | .beginNode name => be32 1 ++ (name ++ [0] ++ padding (name.length + 1))
  | .endNode => be32 2
  | .prop nameoff value =>
    be32 3 ++ (be32 (BitVec.ofNat 32 value.length) ++ (be32 nameoff ++ (value ++ padding value.length)))
  | .nop => be32 4

def tokenBytes (ts : List Token) : List Byte := ts.flatMap Token.bytes

section Shape

variable {b : Blob} {o : Nat}

theorem be32_length (w : BitVec 32) : (be32 w).length = 4 := rfl

theorem padded_mod (n : Nat) : (n + (padding n).length) % 4 = 0 := by
  unfold padding
  rw [List.length_replicate]
  omega

theorem Token.bytes_length_prop (n : BitVec 32) (v : List Byte) :
    (Token.prop n v).bytes.length = 12 + (v.length + (padding v.length).length) := by
  unfold Token.bytes
  simp only [List.length_append, be32_length]
  omega

theorem Token.four_le_bytes (t : Token) : 4 ≤ t.bytes.length := by
  cases t with
  | beginNode name =>
    unfold Token.bytes
    rw [List.length_append, be32_length]
    omega
  | endNode => exact Nat.le_refl 4
  | prop n v =>
    rw [Token.bytes_length_prop]
    omega
  | nop => exact Nat.le_refl 4

theorem Token.bytes_mod (t : Token) : t.bytes.length % 4 = 0 := by
  cases t with
  | beginNode name =>
    have hmod := padded_mod (name.length + 1)
    unfold Token.bytes
    simp only [List.length_append, be32_length, List.length_singleton]
    omega
  | endNode => rfl
  | prop n v =>
    have hmod := padded_mod v.length
    rw [Token.bytes_length_prop]
    omega
  | nop => rfl

/-- A name without NUL, padded: each word of it begins with a byte that is not zero, or ends with one that is. -/
theorem name_word {name : List Byte} (hname : (0 : Byte) ∉ name) {k : Nat} (hk : 4 * k < name.length + 1 + (padding (name.length + 1)).length)
    (h : b.Holds o (name ++ [0] ++ padding (name.length + 1))) : b (o + 4 * k) ≠ 0 ∨ b (o + 4 * k + 3) = 0 := by
  rcases Nat.lt_or_ge (4 * k) name.length with hlt | hge
  · left
    have hbyte : b (o + 4 * k) = name[4 * k] := h _ _ (by
      rw [List.append_assoc, List.getElem?_append_left hlt, List.getElem?_eq_getElem hlt])
    rw [hbyte]
    exact fun h0 => hname (h0 ▸ List.getElem_mem hlt)
  · right
    have hmod := padded_mod (name.length + 1)
    have hzeros : name ++ [0] ++ padding (name.length + 1) = name ++ List.replicate (1 + (padding (name.length + 1)).length) 0 := by
      unfold padding
      rw [List.append_assoc, List.length_replicate, ← List.replicate_append_replicate]
      rfl
    rw [Nat.add_assoc]
    refine h _ _ ?_
    rw [hzeros, List.getElem?_append_right (by omega), List.getElem?_replicate_of_lt (by omega)]

/-- **No word of a token looks like FDT_PROP**, but the first of a property. -/
theorem Token.word_ne_prop {t : Token} (hprop : ∀ n v, t ≠ .prop n v) (hname : ∀ name, t = .beginNode name → (0 : Byte) ∉ name)
    (h : b.Holds o t.bytes) {k : Nat} (hk : 4 * k < t.bytes.length) : b.word (o + 4 * k) ≠ 3 := by
  have hfirst : ∀ w, b.Holds o (be32 w) → w ≠ 3 → b.word (o + 4 * 0) ≠ 3 := by
    intro w hw hne
    rw [Nat.mul_zero, Nat.add_zero, hw.word]
    exact hne
  cases t with
  | beginNode name =>
    obtain ⟨hbegin, hrest⟩ := Blob.holds_append.1 h
    cases k with
    | zero => exact hfirst 1 hbegin (by decide)
    | succ k =>
      have hlen : (Token.beginNode name).bytes.length = 4 + (name.length + 1 + (padding (name.length + 1)).length) := by
        unfold Token.bytes
        simp only [List.length_append, be32_length, List.length_singleton]
      have hcases := name_word (k := k) (hname name rfl) (by omega) hrest
      have hat : o + (be32 1).length + 4 * k = o + 4 * (k + 1) := by
        rw [be32_length]
        omega
      rw [hat] at hcases
      intro hword
      obtain ⟨hb0, hb3⟩ := b.word_bytes (o + 4 * (k + 1))
      rw [hword] at hb0 hb3
      rcases hcases with hne | hzero
      · exact hne hb0.symm
      · rw [hzero] at hb3
        exact absurd hb3 (by decide)
  | endNode =>
    obtain rfl : k = 0 := by
      have : (Token.endNode).bytes.length = 4 := rfl
      omega
    exact hfirst 2 h (by decide)
  | prop n v => exact absurd rfl (hprop n v)
  | nop =>
    obtain rfl : k = 0 := by
      have : (Token.nop).bytes.length = 4 := rfl
      omega
    exact hfirst 4 h (by decide)

/-- **The words of a property.** -/
theorem Token.prop_words {n : BitVec 32} {v : List Byte} (h : b.Holds o (Token.prop n v).bytes) :
    b.word o = 3 ∧ b.word (o + 4) = BitVec.ofNat 32 v.length ∧ b.word (o + 8) = n ∧ b.Holds (o + 12) v := by
  obtain ⟨htok, hrest⟩ := Blob.holds_append.1 h
  obtain ⟨hlen, hrest⟩ := Blob.holds_append.1 hrest
  obtain ⟨hname, hrest⟩ := Blob.holds_append.1 hrest
  exact ⟨htok.word, hlen.word, hname.word, (Blob.holds_append.1 hrest).1⟩

end Shape

/-- The tokens and FDT_END. -/
def structBlock (ts : List Token) : List Byte := tokenBytes ts ++ be32 9

/-- Where a reader of tokens is: before the root, inside of it at some depth and maybe past its properties, after it. -/
inductive Place where
  | before
  | inside (depth : Nat) (props : Bool)
  | after
deriving DecidableEq

def Place.next : Place → Token → Option Place
  | p, .nop => some p
  | .before, .beginNode _ => some (.inside 0 true)
  | .inside d _, .beginNode _ => some (.inside (d + 1) true)
  | .inside d true, .prop _ _ => some (.inside d true)
  | .inside 0 _, .endNode => some .after
  | .inside (d + 1) _, .endNode => some (.inside d false)
  | _, _ => none

/-- One root, nodes inside of each other, properties before the nodes inside of theirs. -/
def WellNested (ts : List Token) : Prop := ts.foldlM Place.next .before = some .after

instance (ts : List Token) : Decidable (WellNested ts) := inferInstanceAs (Decidable (_ = _))

structure Tree where
  tokens : List Token
  strings : List Byte

/-- The string at `n` is `name`. -/
def Tree.Named (t : Tree) (n : Nat) (name : List Byte) : Prop :=
  OccursAt (listCells t.strings) (name ++ [0]) t.strings.length n

/-- The blob is the tree, flattened: header, structure block and strings block. -/
structure IsFdt (b : Blob) (t : Tree) : Prop where
  magic : b.word 0 = 0xd00dfeed
  nested : WellNested t.tokens
  node_names : ∀ name, .beginNode name ∈ t.tokens → (0 : Byte) ∉ name
  prop_names : ∀ n v, .prop n v ∈ t.tokens → ∃ name, (0 : Byte) ∉ name ∧ t.Named n.toNat name
  structs : b.Holds (b.word 8).toNat (structBlock t.tokens)
  strings : b.Holds (b.word 12).toNat t.strings
  strings_size : (b.word 32).toNat = t.strings.length
  header : 40 ≤ (b.word 8).toNat ∧ 40 ≤ (b.word 12).toNat
  structs_room : (b.word 8).toNat + (structBlock t.tokens).length ≤ (b.word 4).toNat
  strings_room : (b.word 12).toNat + t.strings.length ≤ (b.word 4).toNat

end Fdt
