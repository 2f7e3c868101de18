import FormulaBinding.Json.Encoding

/-! # Domain values from JSON

A record is read from an object, in which unknown fields do not count and known ones must not
repeat, or from an array of its fields in order. What is optional may be missing from an object. -/
namespace FormulaBinding

namespace Json

def string? : Json → Option String
  | string s => some s
  | _ => none

def bool? : Json → Option Bool
  | bool b => some b
  | _ => none

/-- The elements of an array, each read with the given reader. -/
def list? {α : Type} (read : Json → Option α) : Json → Option (List α)
  | array js => js.mapM read
  | _ => none

def nullable? {α : Type} (read : Json → Option α) : Json → Option (Option α)
  | null => some none
  | j => (read j).map some

/-- The value of a field, if the field does not repeat; a missing field is null. -/
def field? (fields : List (String × Json)) (name : String) : Option (Bool × Json) :=
  match fields.filter (·.1 == name) with
  | [] => some (false, null)
  | [(_, j)] => some (true, j)
  | _ => none

/-- The values of a record's fields in order; each comes with whether it is there. -/
def record? (names : List String) : Json → Option (List (Bool × Json))
  | object fields => names.mapM (field? fields)
  | array js => if js.length = names.length then some (js.map (true, ·)) else none
  | _ => none

def required? {α : Type} (read : Json → Option α) (f : Bool × Json) : Option α :=
  if f.1 then read f.2 else none

def missing? {α : Type} (read : Json → Option α) (f : Bool × Json) : Option (Option α) :=
  nullable? read f.2

/-- The tag and the content of an alternative; one without content may be just its tag. -/
def variant? : Json → Option (String × Option Json)
  | string tag => some (tag, none)
  | object [(tag, j)] => some (tag, some j)
  | _ => none

def tag? (j : Json) : Option String :=
  match variant? j with
  | some (tag, none) => some tag
  | some (tag, some null) => some tag
  | _ => none

end Json

open Json

def Parameter.ofJson? (j : Json) : Option Parameter := do
  match ← record? ["name", "ty"] j with
  | [name, type] => return ⟨← required? string? name, ← required? string? type⟩
  | _ => none

def Receiver.ofJson? (j : Json) : Option Receiver :=
  match tag? j with
  | some "Shared" => some .shared
  | some "Exclusive" => some .exclusive
  | some "Owned" => some .owned
  | _ => none

def Statement.ofJson? (j : Json) : Option Statement := do
  match ← variant? j with
  | ("DeclareEvaluator", some content) =>
    match ← record? ["binding", "template", "mutable"] content with
    | [evaluator, template, isMutable] =>
      return .declareEvaluator (← required? string? evaluator) (← required? string? template)
        (← required? bool? isMutable)
    | _ => none
  | ("BindParameter", some content) =>
    match ← record? ["binding", "placeholder", "parameter"] content with
    | [evaluator, placeholder, parameter] =>
      return .bindParameter (← required? string? evaluator) (← required? string? placeholder)
        (← required? string? parameter)
    | _ => none
  | ("Invoke", some content) =>
    match ← record? ["binding", "result"] content with
    | [evaluator, result] =>
      return .invoke (← required? string? evaluator) (← required? string? result)
    | _ => none
  | ("Return", some content) =>
    match ← record? ["result"] content with
    | [result] => return .giveBack (← required? string? result)
    | _ => none
  | ("Discard", some content) =>
    match ← record? ["parameter"] content with
    | [parameter] => return .discard (← required? string? parameter)
    | _ => none
  | ("NoExpression", none) => return .noExpression
  | ("NoExpression", some .null) => return .noExpression
  | _ => none

def Argument.ofJson? (j : Json) : Option Argument := do
  match ← variant? j with
  | ("Literal", some text) => return .literal (← string? text)
  | ("Expression", some text) => return .expression (← string? text)
  | ("Named", some content) =>
    match ← record? ["name", "value"] content with
    | [name, value] => return .named (← required? string? name) (← required? string? value)
    | _ => none
  | _ => none

def Annotation.ofJson? (j : Json) : Option Annotation := do
  match ← record? ["namespace", "name", "arguments"] j with
  | [scope, name, arguments] =>
    return ⟨← required? string? scope, ← required? string? name,
      ← required? (list? Argument.ofJson?) arguments⟩
  | _ => none

def Visibility.ofJson? (j : Json) : Option Visibility :=
  match tag? j with
  | some "Public" => some .everyone
  | some "Restricted" => some .restricted
  | some "Private" => some .own
  | _ => none

def Modifiers.ofJson? (j : Json) : Option Modifiers := do
  match ← record? ["visibility", "is_virtual", "is_abstract"] j with
  | [visibility, extensible, foreign] =>
    return ⟨← required? Visibility.ofJson? visibility, ← required? bool? extensible,
      ← required? bool? foreign⟩
  | _ => none

def Declaration.ofJson? (j : Json) : Option Declaration := do
  match ← record? ["name", "containing_type", "containing_namespace", "receiver", "parameters",
    "return_type", "modifiers", "annotations", "has_body", "fixed_shape"] j with
  | [name, container, scope, receiver, parameters, returnType, modifiers, annotations, hasBody,
      fixedShape] =>
    return {
      name := ← required? string? name
      container := ← required? string? container
      scope := ← required? string? scope
      receiver := ← missing? Receiver.ofJson? receiver
      parameters := ← required? (list? Parameter.ofJson?) parameters
      returnType := ← required? string? returnType
      modifiers := ← required? Modifiers.ofJson? modifiers
      annotations := ← required? (list? Annotation.ofJson?) annotations
      hasBody := ← required? bool? hasBody
      fixedShape := ← required? bool? fixedShape }
  | _ => none

def Candidate.ofJson? (j : Json) : Option Candidate := do
  match ← record? ["containing_type", "containing_namespace", "name", "receiver", "parameters",
    "raw_template", "is_eligible_shape"] j with
  | [container, scope, name, receiver, parameters, template, fixedShape] =>
    return {
      container := ← required? string? container
      scope := ← required? string? scope
      name := ← required? string? name
      receiver := ← missing? Receiver.ofJson? receiver
      parameters := ← required? (list? Parameter.ofJson?) parameters
      template := ← missing? string? template
      fixedShape := ← required? bool? fixedShape }
  | _ => none

def Placeholder.ofJson? (j : Json) : Option Placeholder := do
  match ← record? ["raw", "name"] j with
  | [raw, name] => return ⟨← required? string? raw, ← required? string? name⟩
  | _ => none

/-- An outcome from JSON; the names may stand in any order. -/
def Outcome.ofJson? (j : Json) : Option Outcome := do
  let names (f : Bool × Json) : Option (List String) :=
    (required? (list? string?) f).map Text.nameSet
  match ← record? ["matched_parameters", "unused_parameters", "undeclared_placeholders"] j with
  | [matched, unused, undeclared] => return ⟨← names matched, ← names unused, ← names undeclared⟩
  | _ => none

def UnitKey.ofJson? (j : Json) : Option UnitKey := do
  match ← record? ["containing_namespace", "containing_type"] j with
  | [scope, container] => return ⟨← required? string? scope, ← required? string? container⟩
  | _ => none

def Member.ofJson? (j : Json) : Option Member := do
  match ← record? ["containing_type", "containing_namespace", "signature", "body"] j with
  | [container, scope, signature, body] =>
    match ← required? (record? ["name", "receiver", "parameters"]) signature with
    | [name, receiver, parameters] =>
      return {
        container := ← required? string? container
        scope := ← required? string? scope
        name := ← required? string? name
        receiver := ← missing? Receiver.ofJson? receiver
        parameters := ← required? (list? Parameter.ofJson?) parameters
        body := ← required? (list? Statement.ofJson?) body }
    | _ => none
  | _ => none

def SourceUnit.ofJson? (j : Json) : Option SourceUnit := do
  match ← record? ["key", "file_name", "fingerprint", "members", "source"] j with
  | [key, fileName, fingerprint, members, source] =>
    return ⟨← required? UnitKey.ofJson? key, ← required? string? fileName,
      ← required? string? fingerprint, ← required? (list? Member.ofJson?) members,
      ← required? string? source⟩
  | _ => none

def Concern.ofJson? (j : Json) : Option Concern := do
  let tag ← tag? j
  [Concern.noCandidates, .missingTemplate, .mismatch, .emission, .invalidTemplate].find?
    (·.name == tag)

def Severity.ofJson? (j : Json) : Option Severity := do
  let tag ← tag? j
  [Severity.warning, .error].find? (·.name == tag)

def Diagnostic.ofJson? (j : Json) : Option Diagnostic := do
  match ← record? ["id", "severity", "message", "related_candidate"] j with
  | [concern, severity, message, related] =>
    return ⟨← required? Concern.ofJson? concern, ← required? Severity.ofJson? severity,
      ← required? string? message, ← missing? string? related⟩
  | _ => none

def UnitEntry.ofJson? (j : Json) : Option UnitEntry := do
  match ← record? ["unit", "diagnostics"] j with
  | [unit, diagnostics] =>
    return ⟨← required? SourceUnit.ofJson? unit,
      ← required? (list? Diagnostic.ofJson?) diagnostics⟩
  | _ => none

end FormulaBinding
