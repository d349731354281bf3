import Mathlib.Data.Nat.Basic
import Mathlib.Tactic.Common
/-!
# CLayout — sizes and offsets of C types

Scalars are as aligned as they are large, fields stand in order at the next multiple of their alignment, and a structure
ends at a multiple of its own.
-/
namespace CLayout

structure Layout where
  size : Nat
  align : Nat

def scalar (bytes : Nat) : Layout := ⟨bytes, bytes⟩

def Layout.array (n : Nat) (elem : Layout) : Layout := ⟨n * elem.size, elem.align⟩

abbrev Fields := List (String × Layout)

def roundUp (n a : Nat) : Nat := (n + a - 1) / a * a

/-- Where the fields end that begin at `n` or later. -/
def Fields.finish : Fields → Nat → Nat
  | [], n => n
  | (_, l) :: fields, n => Fields.finish fields (roundUp n l.align + l.size)

def struct (fields : Fields) : Layout :=
  let align := fields.foldl (fun a f => max a f.2.align) 1
  ⟨roundUp (fields.finish 0) align, align⟩

/-- `offsetof`, of fields that begin at `n` or later. -/
def Fields.offsetFrom : Fields → Nat → String → Option Nat
  | [], _, _ => none
  | (name, l) :: fields, n, target =>
    if name = target then some (roundUp n l.align) else Fields.offsetFrom fields (roundUp n l.align + l.size) target

def Fields.offsetOf (fields : Fields) (name : String) : Nat := (fields.offsetFrom 0 name).getD 0

end CLayout
