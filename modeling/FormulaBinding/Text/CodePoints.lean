/-! # Sets of code points

A set of code points is written as the increasing list of the places where membership changes:
the first number enters the set, the second leaves it, and so on. -/
namespace FormulaBinding.Text

/-- A set of code points, by the increasing list of its boundaries. -/
structure CodePoints where
  bounds : List Nat

namespace CodePoints

/-- Membership, walking the boundaries up to the code point. -/
def covers : List Nat → Bool → Nat → Bool
  | [], inside, _ => inside
  | bound :: bounds, inside, n => if n < bound then inside else covers bounds (!inside) n

def contains (set : CodePoints) (c : Char) : Bool := covers set.bounds false c.toNat

/-- Below the first boundary nothing belongs to the set. -/
theorem covers_of_lt {bound n : Nat} {bounds : List Nat} {inside : Bool} (h : n < bound) :
    covers (bound :: bounds) inside n = inside := by simp [covers, h]

/-- Passing a boundary flips membership. -/
theorem covers_of_le {bound n : Nat} {bounds : List Nat} {inside : Bool} (h : bound ≤ n) :
    covers (bound :: bounds) inside n = covers bounds (!inside) n := by
  simp [covers, Nat.not_lt.mpr h]

end CodePoints

section
variable (p : Char → Prop) [DecidablePred p] (cs : List Char)

-- A property of the characters of a text is decided on these characters, not on all there are.
instance decidableForallMem : Decidable (∀ c ∈ cs, p c) := List.decidableBAll p cs

instance decidableExistsMem : Decidable (∃ c ∈ cs, p c) := List.decidableBEx p cs

end

end FormulaBinding.Text
