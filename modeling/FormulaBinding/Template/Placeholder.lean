import FormulaBinding.Template.Enclosure

/-! # Placeholders of a template

A placeholder is a name between the two literals of an enclosure. They are found from left to right
without overlap; each distinct name counts once, where it appears first. -/
namespace FormulaBinding

/-- A placeholder: its text with the enclosing literals, and its name without them. -/
structure Placeholder where
  raw : String
  name : String
  deriving DecidableEq, Repr, Inhabited

/-- Why a template is refused. -/
inductive TemplateError where
  | tooLong (bytes : Nat)
  | tooManyPlaceholders
  | nameTooLong (shown : String)
  deriving DecidableEq, Repr

namespace Template

def maxBytes : Nat := 10000

def maxPlaceholders : Nat := 256

def maxNameLength : Nat := 128

/-- How many characters of an overlong name are shown. -/
def shownNameLength : Nat := 16

/-- The name of the placeholder that starts a text, and what follows the placeholder. -/
def matchHere? (scheme : Enclosure) (cs : List Char) : Option (List Char × List Char) :=
  match Text.dropStart? scheme.left cs with
  | none => none
  | some inner =>
    let name := inner.takeWhile (· != scheme.closer)
    let rest := inner.dropWhile (· != scheme.closer)
    match name, Text.dropStart? scheme.right rest with
    | _ :: _, some after => some (name, after)
    | _, _ => none

/-- What is left after taking a beginning off is no longer than the text. -/
theorem length_of_dropStart? {p cs rest : List Char} (h : Text.dropStart? p cs = some rest) :
    cs.length = p.length + rest.length := by
  induction p generalizing cs with
  | nil => simp_all [Text.dropStart?]
  | cons q p ih =>
    cases cs with
    | nil => simp [Text.dropStart?] at h
    | cons c cs =>
      simp only [Text.dropStart?] at h
      split at h
      · simp only [List.length_cons, ih h]; omega
      · simp at h

/-- What follows a placeholder is shorter than the text. -/
theorem length_of_matchHere? {scheme : Enclosure} {cs name rest : List Char}
    (h : matchHere? scheme cs = some (name, rest)) : rest.length < cs.length := by
  unfold matchHere? at h
  split at h
  · simp at h
  · next inner hinner =>
    simp only at h
    split at h
    · next head tail after hname hafter =>
      simp only [Option.some.injEq, Prod.mk.injEq] at h
      obtain ⟨-, rfl⟩ := h
      have h1 := length_of_dropStart? hinner
      have h2 := length_of_dropStart? hafter
      have h3 : (inner.dropWhile (· != scheme.closer)).length ≤ inner.length :=
        (List.dropWhile_suffix _).length_le
      have h4 : 0 < scheme.left.length := by cases scheme <;> decide
      omega
    · simp at h

/-- The names of all placeholders, from left to right, without overlap. -/
def names (scheme : Enclosure) : List Char → List (List Char)
  | [] => []
  | c :: cs =>
    match _found : matchHere? scheme (c :: cs) with
    | some (name, rest) => name :: names scheme rest
    | none => names scheme cs
  termination_by cs => cs.length
  decreasing_by
    · exact length_of_matchHere? _found
    · simp

def placeholder (scheme : Enclosure) (name : List Char) : Placeholder where
  raw := String.ofList (scheme.left ++ name ++ scheme.right)
  name := String.ofList name

/-- Keeps the first occurrence of each name, refusing an overlong name and one name too many. -/
def collect (scheme : Enclosure) :
    List (List Char) → List (List Char) → Except TemplateError (List Placeholder)
  | [], _ => .ok []
  | name :: rest, seen =>
    if maxNameLength < name.length then
      .error (.nameTooLong (String.ofList (name.take shownNameLength ++ "...".toList)))
    else if name ∈ seen then collect scheme rest seen
    else if maxPlaceholders ≤ seen.length then .error .tooManyPlaceholders
    else (collect scheme rest (name :: seen)).map (placeholder scheme name :: ·)

/-- The distinct placeholders of a template in order of first appearance. -/
def placeholders (scheme : Enclosure) (template : String) :
    Except TemplateError (List Placeholder) :=
  if maxBytes < template.utf8ByteSize then .error (.tooLong template.utf8ByteSize)
  else collect scheme (names scheme template.toList) []

end Template

namespace TemplateError

def message : TemplateError → String
  | tooLong bytes =>
    s!"Template too long ({bytes} bytes). Maximum allowed: {Template.maxBytes} bytes"
  | tooManyPlaceholders =>
    s!"Too many distinct placeholders in template. Maximum allowed: {Template.maxPlaceholders}"
  | nameTooLong shown =>
    s!"Placeholder '{shown}' too long (>{Template.maxNameLength} characters)"

end TemplateError
end FormulaBinding
