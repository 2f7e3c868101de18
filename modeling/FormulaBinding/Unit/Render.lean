import FormulaBinding.Token.Build
import FormulaBinding.Unit.Key

/-! # Members and units as tokens

The evaluator and the runtime are paths of the configuration. Generated code refers to the
contract's functions through them. -/
namespace FormulaBinding

/-- Why a unit or a member cannot be written. -/
inductive EmissionError where
  | missingContainer (scope : String)
  | missingScope (container : String)
  | containerName (container : String)
  | unitName (name : String) (fault : ParseError)
  | scopePath (scope : String) (fault : ParseError)
  | signature (member what text : String) (fault : ParseError)
  | format (fault : ParseError)
  deriving DecidableEq, Repr, Inhabited

def EmissionError.message : EmissionError → String
  | missingContainer scope => s!"Members of namespace '{scope}' have no containing type"
  | missingScope container => s!"Type '{container}' has no containing namespace"
  | containerName container => s!"Containing type '{container}' is not a valid identifier"
  | unitName name fault =>
    s!"Generated type name '{name}' is not a valid identifier: {fault.message}"
  | scopePath scope fault => s!"Namespace '{scope}' is not a valid path: {fault.message}"
  | signature member what text fault =>
    s!"Member '{member}': {what} '{text}' does not parse: {fault.message}"
  | format fault => s!"Generated code does not parse: {fault.message}"

/-- What generated code refers to: the evaluator's type, the module of the runtime contract, and
what is appended to a trait's name to name the generated type. -/
structure RenderContext where
  evaluator : Phrase
  runtime : Phrase
  suffix : String

namespace RenderContext
open Token

def runtimeItem (c : RenderContext) (segments : List String) : List Token :=
  c.runtime.tokens ++ segments.flatMap fun s => op "::" ++ ident s

def statement (c : RenderContext) : Statement → Except ParseError (List Token)
  | .declareEvaluator evaluator template isMutable => do
    let evaluator ← Identifier.written evaluator
    return ident "let" ++ (if isMutable then ident "mut" else []) ++ ident evaluator ++ op "=" ++
      op "<" ++ c.evaluator.tokens ++ ident "as" ++ c.runtimeItem ["Evaluator"] ++ op ">" ++
      op "::" ++ ident "construct" ++ inParens (quoted template) ++ op ";"
  | .bindParameter evaluator placeholder parameter => do
    let evaluator ← Identifier.written evaluator
    let parameter ← Identifier.written parameter
    return c.runtimeItem ["Evaluator", "bind"] ++
      inParens (op "&" ++ ident "mut" ++ ident evaluator ++ op "," ++ quoted placeholder ++
        op "," ++ c.runtimeItem ["Value", "from"] ++ inParens (ident parameter)) ++ op ";"
  | .invoke evaluator result => do
    let evaluator ← Identifier.written evaluator
    let result ← Identifier.written result
    return ident "let" ++ ident result ++ op "=" ++ c.runtimeItem ["Evaluator", "evaluate"] ++
      inParens (op "&" ++ ident evaluator) ++ op ";"
  | .giveBack result => do
    let result ← Identifier.written result
    return c.runtimeItem ["NumericResult", "into_f64"] ++ inParens (ident result)
  | .discard parameter => do
    let parameter ← Identifier.written parameter
    return ident "let" ++ ident "_" ++ op "=" ++ op "&" ++ ident parameter ++ op ";"
  | .noExpression => return op "<" ++ ident "f64" ++ op ">" ++ op "::" ++ ident "NAN"

def receiver : Option Receiver → List Token
  | none => []
  | some .shared => op "&" ++ ident "self" ++ op ","
  | some .exclusive => op "&" ++ ident "mut" ++ ident "self" ++ op ","
  | some .owned => ident "self" ++ op ","

def partOf {α : Type} (m : Member) (what text : String) (r : Except ParseError α) :
    Except EmissionError α :=
  r.mapError fun fault => .signature m.name what text fault

def parameter (m : Member) (p : Parameter) : Except EmissionError (List Token) := do
  let name ← partOf m "parameter" p.name (Identifier.written p.name)
  let type ← partOf m "type" p.type (Grammar.readType p.type)
  return ident name ++ op ":" ++ type.tokens

def member (c : RenderContext) (m : Member) : Except EmissionError (List Token) := do
  let name ← partOf m "name" m.name (Identifier.written m.name)
  let parameters ← m.parameters.mapM (parameter m)
  let statements ← partOf m "body" m.name (m.body.mapM c.statement)
  return ident "fn" ++ ident name ++ inParens (receiver m.receiver ++ commaSeparated parameters) ++
    op "->" ++ ident "f64" ++ inBraces statements.flatten

def traitPath (k : UnitKey) : Except EmissionError Phrase :=
  if k.container = "" then .error (.missingContainer k.scope)
  else if k.scope = "" then .error (.missingScope k.container)
  else if !Identifier.isPlain k.container then .error (.containerName k.container)
  else (Grammar.readPath (k.scope ++ "::" ++ k.container)).mapError (.scopePath k.scope)

def unitName (c : RenderContext) (k : UnitKey) : Except EmissionError String :=
  let name := k.container ++ c.suffix
  ((Grammar.readName name).map Identifier.tokenText).mapError (.unitName name)

def documentation (k : UnitKey) : String := s!"Expression bindings generated for `{k.text}`."

/-- A unit around members that are tokens already: the generated type and its implementation. -/
def unit (c : RenderContext) (k : UnitKey) (members : List (List Token)) :
    Except EmissionError (List Token) := do
  let trait ← traitPath k
  let name ← c.unitName k
  let derived := commaSeparated (["Debug", "Clone", "Copy", "Default"].map ident)
  return op "#" ++ inBrackets (ident "doc" ++ op "=" ++ quoted (documentation k)) ++
    op "#" ++ inBrackets (ident "derive" ++ inParens derived) ++
    names ["pub", "struct", name] ++ op ";" ++
    ident "impl" ++ trait.tokens ++ names ["for", name] ++ inBraces members.flatten

end RenderContext
end FormulaBinding
