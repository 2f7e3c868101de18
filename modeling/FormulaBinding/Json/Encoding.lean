import FormulaBinding.Configuration.Basic
import FormulaBinding.Json.Basic
import FormulaBinding.Unit.Emit

/-! # Domain values as JSON

Records are objects whose fields stand in a fixed order; alternatives are named by their tag. -/
namespace FormulaBinding

namespace Json

def optional (s : Option String) : Json := s.elim .null .string

def tagged (tag : String) (fields : List (String × Json)) : Json := .object [(tag, .object fields)]

def strings (ss : List String) : Json := .array (ss.map .string)

end Json

def Parameter.toJson (p : Parameter) : Json :=
  .object [("name", .string p.name), ("ty", .string p.type)]

def Receiver.name : Receiver → String
  | shared => "Shared"
  | exclusive => "Exclusive"
  | owned => "Owned"

def Receiver.toJson (r : Option Receiver) : Json := Json.optional (r.map Receiver.name)

def Parameter.listToJson (ps : List Parameter) : Json := .array (ps.map Parameter.toJson)

def Statement.toJson : Statement → Json
  | declareEvaluator evaluator template isMutable =>
    Json.tagged "DeclareEvaluator"
      [("binding", .string evaluator), ("template", .string template), ("mutable", .bool isMutable)]
  | bindParameter evaluator placeholder parameter =>
    Json.tagged "BindParameter"
      [("binding", .string evaluator), ("placeholder", .string placeholder),
        ("parameter", .string parameter)]
  | invoke evaluator result =>
    Json.tagged "Invoke" [("binding", .string evaluator), ("result", .string result)]
  | giveBack result => Json.tagged "Return" [("result", .string result)]
  | discard parameter => Json.tagged "Discard" [("parameter", .string parameter)]
  | noExpression => .string "NoExpression"

def Statement.listToJson (ss : List Statement) : Json := .array (ss.map Statement.toJson)

def Argument.toJson : Argument → Json
  | literal text => .object [("Literal", .string text)]
  | named name value => Json.tagged "Named" [("name", .string name), ("value", .string value)]
  | expression text => .object [("Expression", .string text)]

def Annotation.toJson (a : Annotation) : Json :=
  .object [("namespace", .string a.scope), ("name", .string a.name),
    ("arguments", .array (a.arguments.map Argument.toJson))]

def Visibility.name : Visibility → String
  | everyone => "Public"
  | restricted => "Restricted"
  | own => "Private"

def Modifiers.toJson (m : Modifiers) : Json :=
  .object [("visibility", .string m.visibility.name), ("is_virtual", .bool m.extensible),
    ("is_abstract", .bool m.foreign)]

def Declaration.toJson (d : Declaration) : Json :=
  .object [("name", .string d.name), ("containing_type", .string d.container),
    ("containing_namespace", .string d.scope), ("receiver", Receiver.toJson d.receiver),
    ("parameters", Parameter.listToJson d.parameters), ("return_type", .string d.returnType),
    ("modifiers", d.modifiers.toJson),
    ("annotations", .array (d.annotations.map Annotation.toJson)), ("has_body", .bool d.hasBody),
    ("fixed_shape", .bool d.fixedShape)]

def Candidate.toJson (c : Candidate) : Json :=
  .object [("containing_type", .string c.container), ("containing_namespace", .string c.scope),
    ("name", .string c.name), ("receiver", Receiver.toJson c.receiver),
    ("parameters", Parameter.listToJson c.parameters), ("raw_template", Json.optional c.template),
    ("is_eligible_shape", .bool c.fixedShape)]

def Placeholder.toJson (p : Placeholder) : Json :=
  .object [("raw", .string p.raw), ("name", .string p.name)]

def Outcome.toJson (o : Outcome) : Json :=
  .object [("matched_parameters", Json.strings o.matched),
    ("unused_parameters", Json.strings o.unused),
    ("undeclared_placeholders", Json.strings o.undeclared)]

def UnitKey.toJson (k : UnitKey) : Json :=
  .object [("containing_namespace", .string k.scope), ("containing_type", .string k.container)]

def Member.toJson (m : Member) : Json :=
  .object [("containing_type", .string m.container), ("containing_namespace", .string m.scope),
    ("signature", .object [("name", .string m.name), ("receiver", Receiver.toJson m.receiver),
      ("parameters", Parameter.listToJson m.parameters)]),
    ("body", Statement.listToJson m.body)]

def SourceUnit.toJson (u : SourceUnit) : Json :=
  .object [("key", u.key.toJson), ("file_name", .string u.fileName),
    ("fingerprint", .string u.fingerprint), ("members", .array (u.members.map Member.toJson)),
    ("source", .string u.source)]

def Diagnostic.fields (d : Diagnostic) : List (String × Json) :=
  [("id", .string d.concern.name), ("severity", .string d.severity.name),
    ("message", .string d.message), ("related_candidate", Json.optional d.related)]

def Diagnostic.toJson (d : Diagnostic) : Json := .object d.fields

def UnitEntry.toJson (e : UnitEntry) : Json :=
  .object [("unit", e.unit.toJson), ("diagnostics", .array (e.diagnostics.map Diagnostic.toJson))]

def Configuration.toJson (c : Configuration) : Json :=
  .object [("marker", .string c.marker.text), ("enclosure", .string c.enclosure.name),
    ("evaluator", .string c.evaluator), ("runtime", .string c.runtime),
    ("validation", .string c.policy.name), ("impl_suffix", .string c.suffix)]

end FormulaBinding
