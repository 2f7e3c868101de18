import FormulaBinding.Configuration.Setting
import FormulaBinding.Toml.Document

/-! # Configurations in TOML

The names of a document are the keys of settings. A fault is reported with the line it is in: an
unknown key at the key, a value that will not do at the value. -/
namespace FormulaBinding
open Toml (Fields Span)

namespace Toml.Value

/-- What a whole number is called, by the narrowest kind of number that holds it. -/
def describeInteger (i : Int) : Except String String :=
  let wide : Int := 0x80000000000000000000000000000000
  if -0x8000000000000000 ≤ i ∧ i < 0x10000000000000000 then .ok s!"integer `{i}`"
  else if -wide ≤ i ∧ i < wide then .ok s!"integer `{i}` as i128"
  else if 0 ≤ i ∧ i < 2 * wide then .ok s!"integer `{i}` as u128"
  else .error "integer number overflowed"

def describeFloat (text : String) : Except String String :=
  let (sign, cs) := match text.toList with
    | '-' :: cs => ("-", cs)
    | cs => ("", cs)
  if cs = "nan".toList then .ok "floating point `NaN`"
  else if cs = "inf".toList then .ok s!"floating point `{sign}inf`"
  else
    match Number.toBinary? (Number.readDecimal cs) with
    | some b =>
      let numeral := String.ofList (Number.positional (Number.shortest b))
      .ok s!"floating point `{sign}{numeral}`"
    | none => .error "floating-point number overflowed"

/-- What a value is called, unless it is a number that is too large or lacks digits. -/
def describe : Toml.Value → Except String String
  | text _ => .ok "string"
  | integer (some i) => describeInteger i
  | integer none => .error "integer number overflowed"
  | float t => describeFloat t
  | boolean b => .ok s!"boolean `{b}`"
  | time _ => .ok "map"
  | array _ _ => .ok "sequence"
  | table _ _ => .ok "map"

/-- What is wrong with a value under the name of a choice, where a table or an array without content
may stand. -/
def contentComplaint? : Toml.Value → Option String
  | .table _ [] => none
  | .array _ [] => none
  | .table _ _ => some "expected empty table"
  | .array _ _ => some "expected empty array"
  | v => some s!"expected table, found {v.kind}"

/-- The choice that a value other than a text names: the only name in a table. -/
def choice : Toml.Value → Except String Choice
  | .table _ [] => .error "wanted exactly 1 element, found 0 elements"
  | .table _ [(name, _, _, v)] => .ok ⟨name, v.contentComplaint?⟩
  | .table _ _ => .error "wanted exactly 1 element, more than 1 element"
  | _ => .error "wanted string or table"

def settingValue : Toml.Value → SettingValue
  | .text s => .text s
  | v =>
    let complaint := match v.describe with
      | .ok described => SettingValue.notText described
      | .error complaint => complaint
    .other complaint v.choice

end Toml.Value

namespace Configuration

/-- The place of a fault in a setting. What a table says is at fault at the name in it or at the
value of that name. -/
def faultSpan (fields : Fields) (key : String) (fault : SettingFault) : Span :=
  match fields.lookup key, fault with
  | some (keySpan, _, _), .unknownKey => keySpan
  | some (_, _, .table _ [(_, nameSpan, _, _)]), .unknownPolicy _ => nameSpan
  | some (_, _, .table _ [(_, _, contentSpan, _)]), .badContent _ => contentSpan
  | some (_, valueSpan, _), _ => valueSpan
  | none, _ => ⟨0, 0⟩

def ofDocument (fields : Fields) : Except Toml.Fault Configuration :=
  (ofSettings (fields.map fun (k, _, _, v) => ⟨k, v.settingValue⟩)).mapError fun (s, fault) =>
    ⟨faultSpan fields s.key fault, fault.message s.key⟩

def ofToml (text : String) : Except ConfigurationError Configuration := do
  let c ← (Toml.read text.toList >>= ofDocument).mapError fun f =>
    ConfigurationError.badText (f.report text.toList)
  discard c.accept
  return c

/-- The configuration of a file, if it is acceptable; faults show the given path. -/
def load (d : Directory) (path : FilePath) (shown : String) :
    Except ConfigurationError Configuration := do
  let text ← (d.readText path).mapError (.badFile shown)
  ofToml text

end Configuration
end FormulaBinding
