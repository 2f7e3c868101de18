import FormulaBinding.Declaration.Basic
import FormulaBinding.Template.Placeholder
import FormulaBinding.Text.NameSet

/-! # Parameters against placeholders

Every parameter should have a placeholder of its name and every placeholder a parameter. -/
namespace FormulaBinding

/-- The names on both sides, those of parameters only, and those of placeholders only. -/
structure Outcome where
  matched : List String
  unused : List String
  undeclared : List String
  deriving DecidableEq, Repr, Inhabited

namespace Outcome

/-- Whether both sides have the same names. -/
def isSuccess (o : Outcome) : Bool := o.unused.isEmpty && o.undeclared.isEmpty

def compare (parameters : List Parameter) (placeholders : List Placeholder) : Outcome :=
  let declared := Text.nameSet (parameters.map Parameter.name)
  let referenced := Text.nameSet (placeholders.map Placeholder.name)
  { matched := declared.filter (· ∈ referenced)
    unused := declared.filter (· ∉ referenced)
    undeclared := referenced.filter (· ∉ declared) }

end Outcome
end FormulaBinding
