import FormulaBinding.Declaration.Eligibility
import FormulaBinding.Member.Body

/-! # Keys of units

All members of one trait make one unit, known by the trait's module path and name. -/
namespace FormulaBinding

/-- The module path and the name of a trait. -/
structure UnitKey where
  scope : String
  container : String
  deriving DecidableEq, Repr, Inhabited

namespace UnitKey

def text (k : UnitKey) : String :=
  if k.scope = "" then k.container
  else if k.container = "" then k.scope
  else k.scope ++ "::" ++ k.container

/-- Whether a key comes before another one: by module path, then by name. -/
def isBefore (a b : UnitKey) : Bool :=
  decide (a.scope < b.scope) || (a.scope == b.scope && decide (a.container < b.container))

def fileEnding : String := ".generated.rs"

/-- The name of a unit's file: the segments of its path with points between them. -/
def fileName (k : UnitKey) : String :=
  let segments := ((Text.segments k.scope).map Text.trim).filter (· ≠ "")
  String.intercalate "." (segments ++ [k.container]) ++ fileEnding

end UnitKey

/-- A generated method before it is written as source. The result is always a number. -/
structure Member where
  container : String
  scope : String
  name : String
  receiver : Option Receiver
  parameters : List Parameter
  body : List Statement
  deriving DecidableEq, Repr, Inhabited

def Candidate.key (c : Candidate) : UnitKey := ⟨c.scope, c.container⟩

def Candidate.qualifiedName (c : Candidate) : String := c.key.text ++ "::" ++ c.name

def Member.key (m : Member) : UnitKey := ⟨m.scope, m.container⟩

def Member.qualifiedName (m : Member) : String := m.key.text ++ "::" ++ m.name

namespace Candidate

/-- Puts a candidate into its group; groups are in the order of their keys. -/
def addToGroups (c : Candidate) : List (UnitKey × List Candidate) → List (UnitKey × List Candidate)
  | [] => [(c.key, [c])]
  | (k, cs) :: groups =>
    if c.key = k then (k, c :: cs) :: groups
    else if c.key.isBefore k then (c.key, [c]) :: (k, cs) :: groups
    else (k, cs) :: addToGroups c groups

def groups (cs : List Candidate) : List (UnitKey × List Candidate) := cs.foldr addToGroups []

end Candidate
end FormulaBinding
