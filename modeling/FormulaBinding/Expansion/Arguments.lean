import FormulaBinding.Configuration.Basic

/-! # Arguments of a binding

A trait that is bound to expressions may be given arguments: the word `strict`, and keys with a path
or a text, each key once. They are laid over the configuration that holds without arguments. -/
namespace FormulaBinding

/-- The keys whose value is a path. -/
inductive PathKey where
  | evaluator
  | runtime
  deriving DecidableEq, Repr

/-- The keys whose value is a text. -/
inductive TextKey where
  | enclosure
  | scope
  | suffix
  | marker
  deriving DecidableEq, Repr

/-- A key is one of the two kinds. -/
inductive BindingKey where
  | path (key : PathKey)
  | text (key : TextKey)
  deriving DecidableEq, Repr

def BindingKey.ofName? : String → Option BindingKey
  | "evaluator" => some (.path .evaluator)
  | "runtime" => some (.path .runtime)
  | "enclosure" => some (.text .enclosure)
  | "namespace" => some (.text .scope)
  | "suffix" => some (.text .suffix)
  | "marker" => some (.text .marker)
  | _ => none

def strictWord : String := "strict"

/-- A string literal at its place. -/
structure TextLiteral where
  literal : String
  place : Extent
  deriving DecidableEq, Repr, Inhabited

def TextLiteral.value (t : TextLiteral) : String := (Literal.stringValue? t.literal).getD ""

/-- An argument. -/
inductive BindingEntry where
  | strict
  | path (key : PathKey) (path : Phrase)
  | text (key : TextKey) (literal : TextLiteral)

namespace BindingEntry

def key? : BindingEntry → Option BindingKey
  | strict => none
  | path k _ => some (.path k)
  | text k _ => some (.text k)

def path? (k : PathKey) : BindingEntry → Option Phrase
  | path l p => if l = k then some p else none
  | _ => none

def text? (k : TextKey) : BindingEntry → Option TextLiteral
  | text l t => if l = k then some t else none
  | _ => none

def isStrict : BindingEntry → Bool
  | strict => true
  | _ => false

end BindingEntry

/-- The arguments of a binding in their order. -/
structure BindingArguments where
  entries : List BindingEntry := []

namespace BindingArguments
open Grammar FormulaBinding.Parser

def keyFault {α : Type} (place : Extent) (rule : String) : Parser α :=
  throw { fault := .refused rule, place := some place }

def readValue (read : Reader) : BindingKey → Parser BindingEntry
  | .path k => do
    let (_, row) ← collect (path read false)
    return .path k (written (row.head?.getD (.node .path [])))
  | .text k => do
    let (_, row) ← collect stringLiteral
    match row with
    | [.token (.literal t place)] => return .text k ⟨t, place⟩
    | _ => expected ["string literal"]

/-- Reads an argument behind those that are given already. -/
def readEntry (read : Reader) (given : List BindingEntry) : Parser BindingEntry := do
  let (_, row) ← collect name
  let (word, place) := match row with
    | [.token (.name w e)] => (w, e)
    | _ => ("", Extent.nowhere)
  if word = strictWord then return .strict
  mark "="
  match BindingKey.ofName? word with
  | none => keyFault place (s!"unknown argument `{word}`; expected one of: evaluator, " ++
      "runtime, enclosure, namespace, suffix, marker, strict")
  | some key =>
    let entry ← readValue read key
    if given.any (·.key? == some key) then keyFault place s!"duplicate argument `{word}`"
    return entry

/-- Reads arguments with commas between them, at most so many, behind those that are given. -/
def readEntries (read : Reader) : Nat → List BindingEntry → Parser (List BindingEntry)
  | 0, given => return given
  | n + 1, given => do
    if ← atEnd then return given
    let given := given ++ [← readEntry read given]
    if ← atEnd then return given
    mark ","
    readEntries read n given

def ofTokens (ts : List Token) : Except ParseError BindingArguments := do
  let (entries, _) ← readTokens (fun read => readEntries read (ts.length + 1) []) ts
  return ⟨entries⟩

def ofText (text : String) : Except ParseError BindingArguments := do ofTokens (← tokensOf text)

def path? (a : BindingArguments) (k : PathKey) : Option Phrase :=
  a.entries.findSome? (BindingEntry.path? k)

def literal? (a : BindingArguments) (k : TextKey) : Option TextLiteral :=
  a.entries.findSome? (BindingEntry.text? k)

def text? (a : BindingArguments) (k : TextKey) : Option String :=
  (a.literal? k).map TextLiteral.value

def isStrict (a : BindingArguments) : Bool := a.entries.any BindingEntry.isStrict

/-- The path of the module through which generated code names the trait. -/
def scope (a : BindingArguments) : String := (a.text? .scope).getD "self"

/-- The marker, read from its text; a text that names none is a fault at its literal. -/
def marker (a : BindingArguments) : Except ParseError Marker :=
  match a.literal? .marker with
  | none => .ok Marker.standard
  | some t =>
    (Marker.ofPath t.value).mapError fun path =>
      { fault := .refused (ConfigurationError.badMarker path).message
        place := some t.place }

/-- The configuration that arguments ask for. What they leave open is as it is without them. -/
def configuration (a : BindingArguments) : Except ParseError Configuration := do
  let standard : Configuration := {}
  return {
    marker := ← a.marker
    enclosure := ((a.text? .enclosure).map Enclosure.ofName).getD standard.enclosure
    evaluator := ((a.path? .evaluator).map Phrase.text).getD standard.evaluator
    runtime := ((a.path? .runtime).map Phrase.text).getD standard.runtime
    policy := if a.isStrict then .strict else standard.policy
    suffix := (a.text? .suffix).getD standard.suffix }

end BindingArguments
end FormulaBinding
