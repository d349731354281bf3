import Mathlib.Data.List.Basic
/-!
# Overlay — images placed in a memory one after the other

An image has a byte for every address of its room.  Images are placed in order, and a later one covers what an earlier
one has put in the room they share.
-/
namespace Overlay

variable {A B : Type}

structure Image (A B : Type) where
  room : A → Prop
  byte : A → B
  [dec : DecidablePred room]

attribute [instance] Image.dec

def place (m : A → B) (i : Image A B) : A → B := fun a => if i.room a then i.byte a else m a

def placeAll (m : A → B) (images : List (Image A B)) : A → B := images.foldl place m

/-- The bytes of the image are where its room is. -/
def Shows (m : A → B) (i : Image A B) : Prop := ∀ a, i.room a → m a = i.byte a

/-- The images have the same bytes wherever they share an address. -/
def Agree (i j : Image A B) : Prop := ∀ a, i.room a → j.room a → i.byte a = j.byte a

theorem place_of_room {m : A → B} {i : Image A B} {a : A} (h : i.room a) : place m i a = i.byte a := if_pos h

theorem place_of_not_room {m : A → B} {i : Image A B} {a : A} (h : ¬ i.room a) : place m i a = m a := if_neg h

/-- Every byte is the old one, in no image's room, or the byte of an image. -/
theorem placeAll_cases : ∀ (images : List (Image A B)) (m : A → B) (a : A),
    (∃ i ∈ images, i.room a ∧ placeAll m images a = i.byte a) ∨
      ((∀ i ∈ images, ¬ i.room a) ∧ placeAll m images a = m a)
  | [], _, _ => .inr ⟨fun _ h => (List.not_mem_nil h).elim, rfl⟩
  | i :: images, m, a => by
    rcases placeAll_cases images (place m i) a with ⟨j, hj, hroom, hbyte⟩ | ⟨hnone, hold⟩
    · exact .inl ⟨j, List.mem_cons_of_mem _ hj, hroom, hbyte⟩
    · by_cases hi : i.room a
      · exact .inl ⟨i, List.mem_cons_self, hi, hold.trans (place_of_room hi)⟩
      · refine .inr ⟨fun j hj => ?_, hold.trans (place_of_not_room hi)⟩
        rcases List.mem_cons.1 hj with rfl | hj
        · exact hi
        · exact hnone j hj

/-- **All the images show after they are placed exactly when they agree with each other.** -/
theorem shows_placeAll_iff {m : A → B} {images : List (Image A B)} :
    (∀ i ∈ images, Shows (placeAll m images) i) ↔ ∀ i ∈ images, ∀ j ∈ images, Agree i j := by
  constructor
  · intro h i hi j hj a hia hja
    exact (h i hi a hia).symm.trans (h j hj a hja)
  · intro h i hi a hia
    rcases placeAll_cases images m a with ⟨j, hj, hja, hbyte⟩ | ⟨hnone, -⟩
    · exact hbyte.trans (h j hj i hi a hja hia)
    · exact absurd hia (hnone i hi)

end Overlay
