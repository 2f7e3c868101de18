/-! # What bytes show

Bytes need not be a text, and still show characters in places: a glyph is a character, or a byte
that belongs to none. -/
namespace FormulaBinding

/-- A character, or nothing for a byte that belongs to no character. -/
abbrev Glyph := Option Char

namespace Glyph

/-- The character that bytes start with, and how many bytes it takes. -/
def first? (bytes : List UInt8) : Option (Char × Nat) :=
  [1, 2, 3, 4].findSome? fun n =>
    match (String.fromUTF8? ⟨(bytes.take n).toArray⟩).map String.toList with
    | some [c] => some (c, n)
    | _ => none

def ofStrays : Nat → List UInt8 → List Glyph
  | 0, _ => []
  | _ + 1, [] => []
  | n + 1, b :: bs =>
    match first? (b :: bs) with
    | some (c, size) => some c :: ofStrays n (bs.drop (size - 1))
    | none => none :: ofStrays n bs

def ofText (s : String) : List Glyph := s.toList.map some

def ofBytes (bytes : ByteArray) : List Glyph :=
  match String.fromUTF8? bytes with
  | some s => ofText s
  | none => ofStrays bytes.size bytes.toList

def text? (gs : List Glyph) : Option String := (gs.mapM id).map String.ofList

end Glyph
end FormulaBinding
