/-! # Texts with separators

Cutting a text at a separator, joining pieces with one, and taking a known beginning or end off. -/
namespace FormulaBinding.Text

def dropStart? : List Char → List Char → Option (List Char)
  | [], cs => some cs
  | _ :: _, [] => none
  | p :: ps, c :: cs => if p = c then dropStart? ps cs else none

theorem dropStart?_eq_some_iff {start cs rest : List Char} :
    dropStart? start cs = some rest ↔ cs = start ++ rest := by
  fun_induction dropStart? start cs with
  | case1 cs => simp
  | case2 p ps => simp
  | case3 ps c cs ih => simpa using ih
  | case4 p ps c cs other => simp [Ne.symm other]

def dropEnd? (ending cs : List Char) : Option (List Char) :=
  (dropStart? ending.reverse cs.reverse).map List.reverse

/-- The pieces of a text between its double colons, each found leftmost. -/
def splitColons : List Char → List (List Char)
  | [] => [[]]
  | ':' :: ':' :: cs => [] :: splitColons cs
  | c :: cs =>
    match splitColons cs with
    | [] => [[c]]
    | piece :: pieces => (c :: piece) :: pieces

def splitLastColons? : List Char → Option (List Char × List Char)
  | [] => none
  | c :: cs =>
    match splitLastColons? cs with
    | some (before, after) => some (c :: before, after)
    | none => (dropStart? [':', ':'] (c :: cs)).map ([], ·)

/-- A text without the double colons it starts with, however many there are. -/
def dropLeadingColons : List Char → List Char
  | ':' :: ':' :: cs => dropLeadingColons cs
  | cs => cs

def segments (path : String) : List String := (splitColons path.toList).map String.ofList

def joinSegments (pieces : List String) : String := String.intercalate "::" pieces

def lastSegment (path : String) : String :=
  match splitLastColons? path.toList with
  | some (_, after) => String.ofList after
  | none => path

end FormulaBinding.Text
