import FormulaBinding.Marker

/-! # Declarations

What is known of a function that is declared in a source text: where it is, its signature, and the
attributes applied to it with their resolved identities. -/
namespace FormulaBinding

/-- A parameter: its name and the text of its type. -/
structure Parameter where
  name : String
  type : String
  deriving DecidableEq, Repr, Inhabited

/-- How a method takes the value it is called on. -/
inductive Receiver where
  | shared
  | exclusive
  | owned
  deriving DecidableEq, Repr, Inhabited

/-- Who may use a declaration. -/
inductive Visibility where
  | everyone
  | restricted
  | own
  deriving DecidableEq, Repr, Inhabited

/-- The modifiers of a declaration: who may use it, whether its body may come from an
implementation, and whether its body can only come from a foreign definition. -/
structure Modifiers where
  visibility : Visibility
  extensible : Bool
  foreign : Bool
  deriving DecidableEq, Repr, Inhabited

/-- An argument of an attribute: a text, a name with a value, or any other expression. -/
inductive Argument where
  | literal (text : String)
  | named (name value : String)
  | expression (text : String)
  deriving DecidableEq, Repr, Inhabited

/-- An applied attribute with its resolved identity. -/
structure Annotation where
  scope : String
  name : String
  arguments : List Argument
  deriving DecidableEq, Repr, Inhabited

def Annotation.isMarker (m : Marker) (a : Annotation) : Bool := m.isAt a.scope a.name

/-- A declared function. `fixedShape` says that a generated signature can repeat the declared one:
no generic parameters, no modifiers, and plain names as parameters. -/
structure Declaration where
  name : String
  container : String
  scope : String
  receiver : Option Receiver
  parameters : List Parameter
  returnType : String
  modifiers : Modifiers
  annotations : List Annotation
  hasBody : Bool
  fixedShape : Bool
  deriving DecidableEq, Repr, Inhabited

namespace Declaration

def qualifiedName (d : Declaration) : String :=
  Text.joinSegments ([d.scope, d.container, d.name].filter (· ≠ ""))

def marker? (m : Marker) (d : Declaration) : Option Annotation :=
  d.annotations.find? fun a => a.isMarker m

end Declaration
end FormulaBinding
