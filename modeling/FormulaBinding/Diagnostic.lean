import FormulaBinding.Unit.Render

/-! # Diagnostics

What is reported beside the generated units. -/
namespace FormulaBinding

/-- How grave a diagnostic is. -/
inductive Severity where
  | warning
  | error
  deriving DecidableEq, Repr, Inhabited

def Severity.name : Severity → String
  | warning => "warning"
  | error => "error"

/-- What a diagnostic is about. -/
inductive Concern where
  | noCandidates
  | missingTemplate
  | mismatch
  | emission
  | invalidTemplate
  deriving DecidableEq, Repr, Inhabited

namespace Concern

def number : Concern → Nat
  | noCandidates => 1
  | missingTemplate => 2
  | mismatch => 3
  | emission => 4
  | invalidTemplate => 5

def name : Concern → String
  | noCandidates => "NoCandidatesFound"
  | missingTemplate => "MissingTemplate"
  | mismatch => "ValidationError"
  | emission => "EmissionError"
  | invalidTemplate => "InvalidTemplate"

def code (c : Concern) : String := "EXB000" ++ toString c.number

end Concern

/-- A diagnostic, with the full name of the candidate or the unit it is about. -/
structure Diagnostic where
  concern : Concern
  severity : Severity
  message : String
  related : Option String
  deriving DecidableEq, Repr, Inhabited

namespace Diagnostic

def noCandidates (marker : String) : Diagnostic where
  concern := .noCandidates
  severity := .warning
  message := "No eligible declarations found: expected public or extensible bodiless methods " ++
    s!"returning f64 and marked with #[{marker}]"
  related := none

def missingTemplate (c : Candidate) : Diagnostic where
  concern := .missingTemplate
  severity := .warning
  message := s!"`{c.name}` has no expression template; a stub returning NaN was generated"
  related := some c.qualifiedName

def listed (names : List String) : String := String.intercalate ", " (names.map fun n => s!"`{n}`")

def problems (o : Outcome) : List String :=
  (if o.unused.isEmpty then []
    else ["parameter(s) not used by the template: " ++ listed o.unused]) ++
  if o.undeclared.isEmpty then []
    else ["placeholder(s) without a matching parameter: " ++ listed o.undeclared]

def mismatch (c : Candidate) (o : Outcome) (severity : Severity) : Diagnostic where
  concern := .mismatch
  severity := severity
  message := s!"`{c.name}`: " ++ String.intercalate "; " (problems o)
  related := some c.qualifiedName

def invalidTemplate (c : Candidate) (e : TemplateError) : Diagnostic where
  concern := .invalidTemplate
  severity := .error
  message := s!"`{c.name}`: {e.message}"
  related := some c.qualifiedName

def emission (k : UnitKey) (e : EmissionError) : Diagnostic where
  concern := .emission
  severity := .error
  message := s!"Skipped generation unit: {e.message}"
  related := some k.text

def memberEmission (m : Member) (e : EmissionError) : Diagnostic where
  concern := .emission
  severity := .error
  message := s!"Skipped member `{m.name}`: {e.message}"
  related := some m.qualifiedName

def isError (d : Diagnostic) : Bool := d.severity == .error

def text (d : Diagnostic) : String :=
  s!"{d.severity.name}[{d.concern.code}]: {d.message}" ++
    match d.related with
    | some name => s!" (candidate: {name})"
    | none => ""

end Diagnostic
end FormulaBinding
