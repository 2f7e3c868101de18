import FormulaBinding.Declaration.Basic

/-! # Eligible declarations

A body is generated for a declaration that is marked and passes every rule; the first rule it
breaks is the reason to leave it out. -/
namespace FormulaBinding

/-- Why a declaration gets no body. -/
inductive Rejection where
  | notMarked
  | notVisible
  | foreign
  | returnType
  | hasBody
  | shape
  deriving DecidableEq, Repr, Inhabited

def Rejection.message : Rejection → String
  | notMarked => "not marked"
  | notVisible => "neither public nor extensible"
  | foreign => "abstract"
  | returnType => "return type is not f64"
  | hasBody => "already has a body"
  | shape => "signature shape not supported"

/-- An eligible declaration, as far as generation needs it. `fixedShape` is always set for a
declaration that was found eligible. -/
structure Candidate where
  container : String
  scope : String
  name : String
  receiver : Option Receiver
  parameters : List Parameter
  template : Option String
  fixedShape : Bool
  deriving DecidableEq, Repr, Inhabited

namespace Declaration

def numericType : String := "f64"

/-- The first rule that a declaration breaks, if it breaks one. -/
def rejection? (m : Marker) (d : Declaration) : Option Rejection :=
  if (d.marker? m).isNone then some .notMarked
  else if d.modifiers.foreign then some .foreign
  else if d.modifiers.visibility ≠ .everyone ∧ d.modifiers.extensible = false then some .notVisible
  else if d.returnType ≠ numericType then some .returnType
  else if d.hasBody then some .hasBody
  else if d.fixedShape = false then some .shape
  else none

/-- The template in the arguments of a marker: the first one that is not named, if it is a text
that is not blank. -/
def template? (arguments : List Argument) : Option String :=
  match arguments.find? fun
    | .named _ _ => false
    | _ => true with
  | some (.literal text) => if Text.trim text ≠ "" then some text else none
  | _ => none

def candidate (m : Marker) (d : Declaration) : Candidate where
  container := d.container
  scope := d.scope
  name := d.name
  receiver := d.receiver
  parameters := d.parameters
  template := (d.marker? m).bind fun a => template? a.arguments
  fixedShape := true

def candidates (m : Marker) (ds : List Declaration) : List Candidate :=
  (ds.filter fun d => (rejection? m d).isNone).map (candidate m)

/-- The marked declarations that are left out, each with its reason. -/
def markedRejections (m : Marker) (ds : List Declaration) : List (Declaration × Rejection) :=
  ds.filterMap fun d =>
    match rejection? m d with
    | some .notMarked => none
    | some r => some (d, r)
    | none => none

end Declaration
end FormulaBinding
