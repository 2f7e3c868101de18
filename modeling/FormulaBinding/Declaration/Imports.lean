import FormulaBinding.Marker

/-! # Imported names

A `use` declaration binds local names to full paths. The first segment of an attribute's path is
looked up among the names bound in the module that the attribute stands in. -/
namespace FormulaBinding

/-- Local names with the paths they are bound to. The binding in front counts. -/
structure Imports where
  bindings : List (String × String) := []
  deriving Repr, Inhabited

namespace Imports

def insert (i : Imports) (name path : String) : Imports := ⟨(name, path) :: i.bindings⟩

def find? (i : Imports) (name : String) : Option String := i.bindings.lookup name

def ofMarker (m : Marker) : Imports := insert {} m.name m.text

mutual

/-- Binds the names of a tree of imported names under a path. A tree that brings `self` or
everything into scope binds nothing. -/
def addTree (i : Imports) (path : String) : Phrase → Imports
  | .node .useTree [.token (.name w _), _, _, tree] => addTree i (Marker.joinPath path w) tree
  | .node .useName [.token (.name w _)] =>
    if w = "self" then i else i.insert w (Marker.joinPath path w)
  | .node .useRename [.token (.name w _), _, .token (.name local' _)] =>
    i.insert local' (Marker.joinPath path w)
  | .node .useGroup [.group _ trees _ _] => addTrees i path trees
  | _ => i

def addTrees (i : Imports) (path : String) : List Phrase → Imports
  | [] => i
  | p :: ps => addTrees (addTree i path p) path ps

end

/-- The names that the declarations of a module bind. -/
def ofItems (items : List Phrase) : Imports :=
  items.foldl (fun i item => if item.is .useItem then addTrees i "" item.parts else i) {}

/-- The full path of a path: its first segment is replaced by what it is bound to. -/
def fullPath (i : Imports) : List String → String
  | [] => ""
  | first :: rest => Text.joinSegments ((i.find? first).getD first :: rest)

/-- Splits a full path at its last double colon. -/
def splitPath (path : String) : String × String :=
  match Text.splitLastColons? path.toList with
  | some (scope, name) => (String.ofList scope, String.ofList name)
  | none => ("", path)

/-- The identity of the attribute that a path names. -/
def resolve (i : Imports) (segments : List String) : String × String :=
  splitPath (i.fullPath segments)

end Imports
end FormulaBinding
