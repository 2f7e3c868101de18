import FormulaBinding.Configuration.Basic

/-! # From candidates to members

A candidate always becomes a member: without a usable template it gives back no number, and where
parameters and placeholders differ only the names on both sides are bound. -/
namespace FormulaBinding

/-- A member with what was found wrong while it was built. -/
structure BuiltMember where
  member : Member
  diagnostics : List Diagnostic
  deriving DecidableEq, Repr

namespace Candidate

def body (scheme : Enclosure) (policy : Policy) (c : Candidate) :
    List Statement × List Diagnostic :=
  let builder := BodyBuilder.start c.parameters
  match c.template with
  | none => (builder.noExpression, [Diagnostic.missingTemplate c])
  | some template =>
    match Template.placeholders scheme template with
    | .error e => (builder.noExpression, [Diagnostic.invalidTemplate c e])
    | .ok placeholders =>
      let outcome := Outcome.compare c.parameters placeholders
      (BodyBuilder.evaluation c.parameters template placeholders outcome,
        if outcome.isSuccess then [] else [Diagnostic.mismatch c outcome policy.severity])

def build (scheme : Enclosure) (policy : Policy) (c : Candidate) : BuiltMember :=
  let (body, diagnostics) := c.body scheme policy
  { member :=
      { container := c.container, scope := c.scope, name := c.name, receiver := c.receiver,
        parameters := c.parameters, body }
    diagnostics }

end Candidate
end FormulaBinding
