import FormulaBinding.Identifier

/-! # Markers

The marker is the attribute that asks for a generated body. It is known by the path of the module
it lives in and its name. -/
namespace FormulaBinding

/-- The identity of an attribute: the path of its module, and its name. -/
structure Marker where
  scope : String
  name : String
  deriving DecidableEq, Repr, Inhabited

namespace Marker

def joinPath (scope name : String) : String := if scope = "" then name else scope ++ "::" ++ name

def text (m : Marker) : String := joinPath m.scope m.name

/-- Whether a text is a module path: empty, or plain identifiers and `crate` between colons. -/
def isScope (scope : String) : Bool :=
  scope == "" || (Text.segments scope).all fun s => Identifier.isPlain s || s == "crate"

/-- The marker of a module path and a name, if they are proper; else the text that is refused. -/
def make (scope name : String) : Except String Marker :=
  if Identifier.isPlain name && isScope scope then .ok ⟨scope, name⟩
  else .error (joinPath scope name)

/-- The marker that a path text names. Blanks around it and double colons in front of it do not
count. -/
def ofPath (path : String) : Except String Marker :=
  let path := Text.dropLeadingColons (Text.trim path).toList
  match Text.splitLastColons? path with
  | some (scope, name) => make (String.ofList scope) (String.ofList name)
  | none => make "" (String.ofList path)

def isAt (m : Marker) (scope name : String) : Bool := m.name == name && m.scope == scope

def standard : Marker := ⟨"exprbind", "expression"⟩

end Marker
end FormulaBinding
