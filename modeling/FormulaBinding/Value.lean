/-! # Values and results

What generated code hands to an evaluator, and how the result of an evaluation becomes the number
that a generated function returns. -/
namespace FormulaBinding

/-- A parameter's value as an evaluator receives it. -/
inductive Value where
  | integer (i : Int64)
  | float (x : Float)
  | boolean (b : Bool)

namespace Value

def toFloat : Value → Float
  | integer i => i.toFloat
  | float x => x
  | boolean b => if b then 1.0 else 0.0

end Value

/-- The types whose members may be bound to a placeholder. -/
class ToValue (α : Type) where
  toValue : α → Value

export ToValue (toValue)

instance : ToValue Int8 := ⟨fun i => .integer i.toInt64⟩

instance : ToValue Int16 := ⟨fun i => .integer i.toInt64⟩

instance : ToValue Int32 := ⟨fun i => .integer i.toInt64⟩

instance : ToValue Int64 := ⟨.integer⟩

instance : ToValue UInt8 := ⟨fun n => .integer (Int64.ofNat n.toNat)⟩

instance : ToValue UInt16 := ⟨fun n => .integer (Int64.ofNat n.toNat)⟩

instance : ToValue UInt32 := ⟨fun n => .integer (Int64.ofNat n.toNat)⟩

instance : ToValue Float32 := ⟨fun x => .float x.toFloat⟩

instance : ToValue Float := ⟨.float⟩

instance : ToValue Bool := ⟨.boolean⟩

/-- The types that an evaluation may have as its result. -/
class NumericResult (α : Type) where
  toFloat : α → Float

namespace NumericResult

/-- The number that stands for an evaluation without a result. -/
def missing : Float := 0.0 / 0.0

instance : NumericResult Float := ⟨id⟩

instance : NumericResult Float32 := ⟨Float32.toFloat⟩

instance : NumericResult Int64 := ⟨Int64.toFloat⟩

instance : NumericResult Int32 := ⟨fun i => i.toInt64.toFloat⟩

instance : NumericResult Value := ⟨Value.toFloat⟩

instance {α : Type} [NumericResult α] : NumericResult (Option α) :=
  ⟨fun r => r.elim missing toFloat⟩

instance {ε α : Type} [NumericResult α] : NumericResult (Except ε α) :=
  ⟨fun r => toFloat r.toOption⟩

end NumericResult
end FormulaBinding
