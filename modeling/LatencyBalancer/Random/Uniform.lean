import LatencyBalancer.Numeric.Power
import LatencyBalancer.Random.WordTape

/-!
Uniform draws below a bound.

A word is multiplied by the bound; the high half of the product is the draw.  To make every
value equally likely, a word is refused when the low half of its product falls outside a zone
that is a power of two times the bound, and the next word is read.
-/

namespace LatencyBalancer.Random

universe u

/-- How far a positive bound can be shifted left within a word of the given width. -/
def leadingZeros (width bound : Nat) : Nat :=
  width - (Nat.log2 bound + 1)

def Accepts (width bound word : Nat) : Prop :=
  word * bound % powerOfTwo width < bound * powerOfTwo (leadingZeros width bound)

instance (width bound word : Nat) : Decidable (Accepts width bound word) :=
  inferInstanceAs (Decidable (_ < _))

def scaled (width bound word : Nat) : Nat :=
  word * bound / powerOfTwo width

/-- Read words, of which the low bits up to the width count, until one is accepted. -/
def below (width bound : Nat) (tape : WordTape) : Option (Nat × WordTape) :=
  match _read : tape.next? with
  | none => none
  | some (word, rest) =>
      let kept := word.toNat % powerOfTwo width
      if Accepts width bound kept then some (scaled width bound kept, rest)
      else below width bound rest
termination_by tape.remaining
decreasing_by simp [WordTape.remaining_of_next? ‹_›]

/-- Lists that an index of 32 bits can address are drawn from with half words. -/
def indexWidth (length : Nat) : Nat :=
  if length < UInt32.size then 32 else 64

/-- An element of the list, each place being equally likely; nothing is drawn from no elements. -/
def choose? {Item : Type u} (items : List Item) (tape : WordTape) :
    Option (Option Item × WordTape) :=
  if items.isEmpty then some (none, tape)
  else (below (indexWidth items.length) items.length tape).map fun (index, rest) =>
    (items[index]?, rest)

theorem scaled_lt {width bound word : Nat} (fits : word < powerOfTwo width)
    (positive : 0 < bound) :
    scaled width bound word < bound :=
  Nat.div_lt_of_lt_mul (Nat.mul_lt_mul_of_pos_right fits positive)

@[simp]
theorem choose?_nil {Item : Type u} (tape : WordTape) :
    choose? ([] : List Item) tape = some (none, tape) := rfl

end LatencyBalancer.Random
