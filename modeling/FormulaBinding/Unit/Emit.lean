import FormulaBinding.Layout.Item
import FormulaBinding.Unit.Render
import FormulaBinding.Diagnostic

/-! # Units

A unit is the source text of one generated type with its implementation of a trait. -/
namespace FormulaBinding

/-- A generated unit: its key, the name of its file, the fingerprint of what it was generated from,
the members in it, and its source text. -/
structure SourceUnit where
  key : UnitKey
  fileName : String
  fingerprint : String
  members : List Member
  source : String
  deriving DecidableEq, Repr, Inhabited

/-- A unit with what was reported about it. -/
structure UnitEntry where
  unit : SourceUnit
  diagnostics : List Diagnostic
  deriving DecidableEq, Repr, Inhabited

namespace SourceUnit

/-- The source text of tokens that make up a file. -/
def format (ts : List Token) : Except EmissionError String :=
  ((Grammar.readFileTokens ts).map Layout.fileText).mapError .format

/-- The tokens of each member that can be written, and a diagnostic for each other one. -/
def renderAll (context : RenderContext) : List Member → List (Member × List Token) × List Diagnostic
  | [] => ([], [])
  | m :: ms =>
    let (kept, skipped) := renderAll context ms
    match context.member m with
    | .ok tokens => ((m, tokens) :: kept, skipped)
    | .error e => (kept, Diagnostic.memberEmission m e :: skipped)

/-- The unit of the given members. A member that cannot be written is left out; only a key that
names no trait or no type makes the whole unit fail. -/
def emit (context : RenderContext) (key : UnitKey) (members : List Member) (fingerprint : String) :
    Except EmissionError UnitEntry := do
  let (kept, skipped) := renderAll context members
  let tokens ← context.unit key (kept.map (·.2))
  let source ← format tokens
  return {
    unit := { key, fileName := key.fileName, fingerprint, members := kept.map (·.1), source }
    diagnostics := skipped }

end SourceUnit
end FormulaBinding
