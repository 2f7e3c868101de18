import FormulaBinding.Member.Outcome

/-! # Bodies

A body constructs an evaluator from the template, binds parameters to placeholders, evaluates, and
gives back the result. Its local names avoid those of the parameters. -/
namespace FormulaBinding

/-- A statement of a generated body. -/
inductive Statement where
  /-- Makes an evaluator of a template; `mutable` if something is bound to it later. -/
  | declareEvaluator (evaluator template : String) (isMutable : Bool)
  /-- Gives a placeholder the value of a parameter. -/
  | bindParameter (evaluator placeholder parameter : String)
  /-- Evaluates into a result. -/
  | invoke (evaluator result : String)
  /-- Gives the result back as a number. -/
  | giveBack (result : String)
  /-- Mentions a parameter that is not bound. -/
  | discard (parameter : String)
  /-- Gives back no number. -/
  | noExpression
  deriving DecidableEq, Repr, Inhabited

def Statement.boundParameter? : Statement → Option String
  | bindParameter _ _ parameter => some parameter
  | _ => none

/-- The name with as many underscores appended, at most `n`, as it takes to differ from all names
in use. -/
def appendFresh (used : List String) : Nat → String → String
  | 0, name => name
  | n + 1, name => if name ∈ used then appendFresh used n (name ++ "_") else name

/-- A name that no parameter has: the base with underscores appended. One underscore for each name
in use is always enough. -/
def freshName (used : List String) (base : String) : String := appendFresh used used.length base

/-- A body in the making: the parameters, the local names, and the statements so far. -/
structure BodyBuilder where
  parameters : List Parameter
  evaluator : String
  result : String
  statements : List Statement
  deriving DecidableEq, Repr

namespace BodyBuilder

def start (parameters : List Parameter) : BodyBuilder where
  parameters
  evaluator := freshName (parameters.map Parameter.name) "evaluator"
  result := freshName (parameters.map Parameter.name) "result"
  statements := []

def push (b : BodyBuilder) (s : Statement) : BodyBuilder :=
  { b with statements := b.statements ++ [s] }

def declareEvaluator (b : BodyBuilder) (template : String) : BodyBuilder :=
  b.push (.declareEvaluator b.evaluator template false)

/-- Makes the evaluator mutable, if its declaration is the first statement. -/
def markMutable : List Statement → List Statement
  | .declareEvaluator evaluator template _ :: rest =>
    .declareEvaluator evaluator template true :: rest
  | statements => statements

/-- Gives a placeholder the value of a parameter; the evaluator becomes mutable. -/
def bind (b : BodyBuilder) (placeholder parameter : String) : BodyBuilder :=
  ({ b with statements := markMutable b.statements } : BodyBuilder).push
    (.bindParameter b.evaluator placeholder parameter)

def invoke (b : BodyBuilder) : BodyBuilder := b.push (.invoke b.evaluator b.result)

def discards (parameters : List Parameter) (statements : List Statement) : List Statement :=
  let bound := statements.filterMap Statement.boundParameter?
  (parameters.filter (·.name ∉ bound)).map (.discard ·.name)

def returning (b : BodyBuilder) : List Statement :=
  b.statements ++ discards b.parameters b.statements ++ [.giveBack b.result]

def noExpression (b : BodyBuilder) : List Statement :=
  discards b.parameters [] ++ [.noExpression]

/-- The body for a template: every placeholder with a parameter of its name is bound, in order of
first appearance. -/
def evaluation (parameters : List Parameter) (template : String) (placeholders : List Placeholder)
    (outcome : Outcome) : List Statement :=
  let bound := placeholders.filter (·.name ∈ outcome.matched)
  let b := (start parameters).declareEvaluator template
  (bound.foldl (fun b p => b.bind p.name p.name) b).invoke.returning

end BodyBuilder
end FormulaBinding
