import FormulaBinding.Configuration.Basic
import FormulaBinding.Json.Basic
import FormulaBinding.Number.Shortest

/-! # Settings

A configuration is written down as settings, each a key with a value. They are applied in increasing
order of their keys to the configuration that holds where nothing is set, and the first one that
cannot be applied makes the configuration unreadable. -/
namespace FormulaBinding

/-- A choice by its name, with a complaint if more is said than the name. -/
structure Choice where
  name : String
  complaint? : Option String := none

/-- The value of a setting. A value that is no text comes with a complaint for where a text has to
be given, and either it names a choice or there is a complaint for where one has to be named. -/
inductive SettingValue where
  | text (s : String)
  | other (complaint : String) (choice : Except String Choice)

namespace SettingValue

/-- The complaint about a value that is no text, given what it is called. -/
def notText (described : String) : String := s!"invalid type: {described}, expected a string"

def text? : SettingValue → Except String String
  | text s => .ok s
  | other complaint _ => .error complaint

def choice? : SettingValue → Except String Choice
  | text s => .ok ⟨s, none⟩
  | other _ choice => choice

end SettingValue

/-- A key with its value. -/
structure Setting where
  key : String
  value : SettingValue

/-- Why a setting cannot be applied. -/
inductive SettingFault where
  /-- There is no such key. -/
  | unknownKey
  /-- The value will not do. -/
  | badValue (complaint : String)
  /-- There is no such policy. -/
  | unknownPolicy (name : String)
  /-- What is said about a choice beside its name will not do. -/
  | badContent (complaint : String)
  deriving DecidableEq, Repr

def settingKeys : List String :=
  ["marker", "enclosure", "evaluator", "runtime", "validation", "impl_suffix"]

def SettingFault.message (key : String) : SettingFault → String
  | unknownKey => s!"unknown field `{key}`, expected one of " ++
      String.intercalate ", " (settingKeys.map fun k => s!"`{k}`")
  | badValue complaint => complaint
  | unknownPolicy name => s!"unknown variant `{name}`, expected `lenient` or `strict`"
  | badContent complaint => complaint

namespace Configuration

def readPolicy (v : SettingValue) : Except SettingFault Policy := do
  let choice ← v.choice?.mapError .badValue
  match Policy.ofName? choice.name, choice.complaint? with
  | some p, none => return p
  | some _, some complaint => throw (.badContent complaint)
  | none, _ => throw (.unknownPolicy choice.name)

def readText (v : SettingValue) : Except SettingFault String := v.text?.mapError .badValue

def readMarker (v : SettingValue) : Except SettingFault Marker := do
  (Marker.ofPath (← readText v)).mapError fun path =>
    .badValue (ConfigurationError.badMarker path).message

def apply (c : Configuration) (s : Setting) : Except SettingFault Configuration :=
  let field {α : Type} (read : SettingValue → Except SettingFault α) (put : α → Configuration) :
      Except SettingFault Configuration := (read s.value).map put
  match s.key with
  | "marker" => field readMarker fun m => { c with marker := m }
  | "enclosure" => field readText fun t => { c with enclosure := Enclosure.ofName t }
  | "evaluator" => field readText fun t => { c with evaluator := t }
  | "runtime" => field readText fun t => { c with runtime := t }
  | "validation" => field readPolicy fun p => { c with policy := p }
  | "impl_suffix" => field readText fun t => { c with suffix := t }
  | _ => .error .unknownKey

/-- A configuration after several settings in their order; a fault comes with its setting. -/
def applyAll (c : Configuration) : List Setting → Except (Setting × SettingFault) Configuration
  | [] => .ok c
  | s :: ss =>
    match c.apply s with
    | .ok c => applyAll c ss
    | .error fault => .error (s, fault)

def ofSettings (ss : List Setting) : Except (Setting × SettingFault) Configuration :=
  applyAll {} (ss.mergeSort fun a b => decide (a.key ≤ b.key))

end Configuration

namespace Json

/-- What a number is called: a whole number by its digits, any other one, and a negative zero, by
its shortest numeral. -/
def describeNumber (text : String) : String :=
  let (sign, cs) := match text.toList with
    | '-' :: cs => ("-", cs)
    | cs => ("", cs)
  let n := Number.ofDigits cs
  let isInteger := if sign = "" then n < 0x10000000000000000 else 0 < n ∧ n ≤ 0x8000000000000000
  if cs.all Char.isDigit && isInteger then s!"integer `{text}`"
  else
    match Number.toBinary? (Number.readDecimal cs) with
    | some b =>
      let numeral := String.ofList (Number.exponential (Number.shortest b))
      s!"floating point `{sign}{numeral}`"
    | none => "null"

def describe : Json → String
  | null => "null"
  | bool true => "boolean `true`"
  | bool false => "boolean `false`"
  | number t => describeNumber t
  | string s => "string " ++ Literal.quote s
  | array _ => "sequence"
  | object _ => "map"
  | garbled => "garbled text"

/-- A value as the value of a setting. A choice may be the only key of an object without content. -/
def settingValue (j : Json) : SettingValue :=
  let complaint := SettingValue.notText j.describe
  match j with
  | string s => .text s
  | object [(tag, null)] => .other complaint (.ok ⟨tag, none⟩)
  | object [(tag, content)] =>
    .other complaint (.ok ⟨tag, some s!"invalid type: {content.describe}, expected unit"⟩)
  | object _ => .other complaint (.error "invalid value: map, expected map with a single key")
  | _ => .other complaint (.error s!"invalid type: {j.describe}, expected string or map")

end Json

/-- The configuration whose settings are the fields of an object, or the text of the first fault. -/
def Configuration.ofFields (fields : List (String × Json)) : Except String Configuration :=
  (ofSettings (fields.map fun (k, j) => ⟨k, j.settingValue⟩)).mapError fun (s, fault) =>
    fault.message s.key

end FormulaBinding
