import FormulaBinding.Diagnostic
import FormulaBinding.Directory

/-! # Configurations

What a generator is set up with, and when that is acceptable. -/
namespace FormulaBinding

/-- Whether a mismatch of parameters and placeholders is a warning or an error. -/
inductive Policy where
  | lenient
  | strict
  deriving DecidableEq, Repr, Inhabited

namespace Policy

def name : Policy → String
  | lenient => "lenient"
  | strict => "strict"

def ofName? (s : String) : Option Policy :=
  if s = "lenient" then some lenient else if s = "strict" then some strict else none

def severity : Policy → Severity
  | lenient => .warning
  | strict => .error

end Policy

/-- Why a configuration is refused. -/
inductive ConfigurationError where
  /-- The text names no marker. -/
  | badMarker (path : String)
  /-- The text of a field is no path. -/
  | badPath (field value : String) (fault : ParseError)
  /-- The text cannot end an identifier. -/
  | badSuffix (suffix : String)
  /-- The configuration text cannot be read; the report says where and why. -/
  | badText (report : String)
  /-- The configuration file cannot be read. -/
  | badFile (path : String) (cause : FileError)
  deriving DecidableEq, Repr, Inhabited

def ConfigurationError.message : ConfigurationError → String
  | badMarker path =>
    s!"Invalid marker reference '{path}': expected `namespace::name` with an identifier name"
  | badPath field value fault => s!"Invalid {field} path '{value}': {fault.message}"
  | badSuffix suffix =>
    s!"Invalid implementation suffix '{suffix}': it must continue a Rust identifier"
  | badText report => s!"Failed to parse configuration: {report}"
  | badFile path cause => s!"Failed to read configuration {path}: {cause.message}"

/-- A configuration: the marker, the enclosure of placeholders, the evaluator's type and the module
of the runtime contract as path texts, the policy, and what is appended to a trait's name. -/
structure Configuration where
  marker : Marker := Marker.standard
  enclosure : Enclosure := .square
  evaluator : String := "Evaluator"
  runtime : String := "::exprbind::runtime"
  policy : Policy := .lenient
  suffix : String := "Expressions"
  deriving DecidableEq, Repr, Inhabited

namespace Configuration

def readPath (field value : String) : Except ConfigurationError Phrase :=
  (Grammar.readPath value).mapError (.badPath field value)

def evaluatorPath (c : Configuration) : Except ConfigurationError Phrase :=
  readPath "evaluator" c.evaluator

def runtimePath (c : Configuration) : Except ConfigurationError Phrase :=
  readPath "runtime" c.runtime

/-- Whether a text may end an identifier, which is tried behind a letter. -/
def isSuffix (s : String) : Bool := s == "" || Identifier.isName ("X" ++ s)

/-- The paths and the suffix of a configuration for generated code. The suffix is not checked. -/
def context (c : Configuration) : Except ConfigurationError RenderContext := do
  let evaluator ← c.evaluatorPath
  let runtime ← c.runtimePath
  return { evaluator, runtime, suffix := c.suffix }

def accept (c : Configuration) : Except ConfigurationError RenderContext := do
  let context ← c.context
  if !isSuffix c.suffix then throw (.badSuffix c.suffix)
  return context

end Configuration
end FormulaBinding
