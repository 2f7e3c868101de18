import FormulaBinding.Declaration.Eligibility
import FormulaBinding.Proofs.Declaration.Resolution
import FormulaBinding.Proofs.Generation.Acceptance
import FormulaBinding.Proofs.Success
import FormulaBinding.Proofs.Token.Quoting
import FormulaBinding.Unit.Render

/-!
# Templates in generated code

The one literal that a statement adds to those of the evaluator's and the runtime's paths is the text
that the statement is about. Where a marker has such a literal as its argument, the text is the
template of the declaration again, unless it is blank.
-/

namespace FormulaBinding

namespace Token

mutual

def literals : Token → List String
  | literal text _ => [text]
  | group _ body _ _ => literalsList body
  | _ => []

def literalsList : List Token → List String
  | [] => []
  | t :: ts => literals t ++ literalsList ts

end

@[simp] theorem literalsList_nil : literalsList [] = [] := rfl

@[simp] theorem literalsList_append (ts us : List Token) :
    literalsList (ts ++ us) = literalsList ts ++ literalsList us := by
  induction ts with
  | nil => rfl
  | cons t ts ih => simp only [List.cons_append, literalsList, ih, List.append_assoc]

@[simp] theorem literalsList_ident (n : String) : literalsList (ident n) = [] := rfl

@[simp] theorem literalsList_op (s : String) : literalsList (op s) = [] := by
  rw [op]
  induction s.toList using markList.induct with
  | case1 => rfl
  | case2 c => rfl
  | case3 c cs _ ih => simpa [markList, literalsList, literals] using ih

@[simp] theorem literalsList_quoted (t : String) : literalsList (quoted t) = [Literal.quote t] :=
  rfl

@[simp] theorem literalsList_inParens (ts : List Token) :
    literalsList (inParens ts) = literalsList ts := by
  simp [inParens, grouped, literalsList, literals]

end Token

namespace RenderContext
open Token

variable {c : RenderContext} {evaluator template placeholder parameter : String}
  {isMutable : Bool} {ts : List Token}

@[simp] theorem literalsList_runtimeItem (c : RenderContext) (segments : List String) :
    literalsList (c.runtimeItem segments) = literalsList c.runtime.tokens := by
  have none : literalsList (segments.flatMap fun s => op "::" ++ ident s) = [] := by
    induction segments with
    | nil => rfl
    | cons s segments ih => simp [ih]
  rw [runtimeItem, literalsList_append, none, List.append_nil]

/-- An evaluator is constructed from one literal, behind those of its own path. -/
theorem literalsList_declareEvaluator
    (h : c.statement (.declareEvaluator evaluator template isMutable) = .ok ts) :
    literalsList ts = literalsList c.evaluator.tokens ++ literalsList c.runtime.tokens ++
      [Literal.quote template] := by
  obtain ⟨name, -, same⟩ := bind_eq_ok.mp h
  cases same
  cases isMutable <;> simp

theorem literalsList_bindParameter
    (h : c.statement (.bindParameter evaluator placeholder parameter) = .ok ts) :
    literalsList ts = literalsList c.runtime.tokens ++ [Literal.quote placeholder] ++
      literalsList c.runtime.tokens := by
  obtain ⟨_, -, h⟩ := bind_eq_ok.mp h
  obtain ⟨_, -, same⟩ := bind_eq_ok.mp h
  cases same
  simp

end RenderContext

namespace Source

variable {t : String} {m : Marker} {imports : Imports} {f : Phrase}

/-- Whether the first attribute of a declaration that is the marker has arguments. -/
def HasArguments (m : Marker) (imports : Imports) (f : Phrase) (arguments : List Token) : Prop :=
  ∃ before a after, attributes f = before ++ a :: after ∧
    (∀ b ∈ before, (annotationOf imports b).isMarker m = false) ∧
    (annotationOf imports a).isMarker m = true ∧
    ∃ path d e e', attributeContent a = [path, .token (.group d arguments e e')]

/-- The literal in a declaration's only attribute, if that is the marker and has a literal alone as
its arguments. -/
def soleLiteral? (m : Marker) (imports : Imports) (f : Phrase) : Option String :=
  match attributes f with
  | [a] =>
    if (annotationOf imports a).isMarker m then
      match attributeContent a with
      | [_, .token (.group _ [.literal l _] _ _)] => some l
      | _ => none
    else none
  | _ => none

theorem hasArguments_of_soleLiteral? {l : String} (h : soleLiteral? m imports f = some l) :
    ∃ e, HasArguments m imports f [.literal l e] := by
  unfold soleLiteral? at h
  split at h
  · rename_i a only
    split_ifs at h with marker
    split at h
    · rename_i content
      cases h
      exact ⟨_, [], a, [], only, by simp, marker, _, _, _, _, content⟩
    · cases h
  · cases h

/-- A literal that denotes a text is read as that text. -/
theorem argumentsOf_quoted (t : String) (e : Extent) :
    argumentsOf [.literal (Literal.quote t) e] = [.literal t] := by
  have read : Grammar.readExpressions [.literal (Literal.quote t) e] =
      .ok [.node .literalExpr [.token (.literal (Literal.quote t) e)]] := rfl
  have own : argumentOf (.node .literalExpr [.token (.literal (Literal.quote t) e)]) =
      .literal t := by
    simp [argumentOf, Phrase.kind?, Phrase.parts, Phrase.is, Literal.stringValue?_quote]
  rw [argumentsOf, read]
  simp [own]

theorem marker?_declaration {arguments : List Token} (carries : HasArguments m imports f arguments)
    (scope container : String) (modifiers : Modifiers) (plain : Bool) :
    ∃ a, (declaration imports scope container modifiers plain f).marker? m = some a ∧
      a.arguments = argumentsOf arguments := by
  obtain ⟨before, a, after, all, others, marker, path, d, e, e', content⟩ := carries
  refine ⟨annotationOf imports a, ?_, ?_⟩
  · have none : (before.map (annotationOf imports)).find? (·.isMarker m) = none := by
      simpa using others
    simp [Declaration.marker?, declaration, annotations, all, none, marker]
  · simp [annotationOf, content]

/-- The template of a declaration whose marker has a literal as its only argument. -/
theorem template_declaration {e : Extent}
    (carries : HasArguments m imports f [.literal (Literal.quote t) e])
    (scope container : String) (modifiers : Modifiers) (plain : Bool) :
    ((declaration imports scope container modifiers plain f).candidate m).template =
      if Text.trim t = "" then none else some t := by
  obtain ⟨a, marker, arguments⟩ := marker?_declaration carries scope container modifiers plain
  rw [argumentsOf_quoted] at arguments
  simp only [Declaration.candidate, marker, Option.bind_some, arguments, Declaration.template?,
    List.find?_cons]
  split_ifs <;> simp_all

end Source

/-- Every text survives generation: the literal that a statement adds for a template or for a
placeholder is one token and denotes the text. A method of a trait whose marker has this literal as
its argument is declared with the text as its template, unless the text is blank. -/
theorem Literal.quote_survives (t : String) :
    (∀ c evaluator isMutable ts,
      RenderContext.statement c (.declareEvaluator evaluator t isMutable) = .ok ts →
        Token.literalsList ts = Token.literalsList c.evaluator.tokens ++
          Token.literalsList c.runtime.tokens ++ [quote t]) ∧
    (∀ c evaluator parameter ts,
      RenderContext.statement c (.bindParameter evaluator t parameter) = .ok ts →
        Token.literalsList ts = Token.literalsList c.runtime.tokens ++ [quote t] ++
          Token.literalsList c.runtime.tokens) ∧
    (∃ e, Lexer.tokens? (quote t).toList = some [.literal (quote t) e]) ∧
    stringValue? (quote t) = some t ∧
    ∀ text root items, Grammar.readFile text = .ok items →
      ∀ scope inner trait method, Source.IsMethod root items scope inner trait method →
        ∀ m e, Source.HasArguments m (Imports.ofItems inner) method [.literal (quote t) e] →
          ∃ ds, Source.declarations text root = .ok ds ∧
            ∃ d ∈ ds, d.scope = scope ∧ d.container = Source.writtenName trait ∧
              d.name = Source.functionName method ∧
              (d.candidate m).template = if Text.trim t = "" then none else some t := by
  refine ⟨fun c evaluator isMutable ts => RenderContext.literalsList_declareEvaluator,
    fun c evaluator parameter ts => RenderContext.literalsList_bindParameter,
    ⟨_, Lexer.tokens?_quote t⟩, stringValue?_quote t, ?_⟩
  intro text root items read scope inner trait method isMethod m e carries
  have declared : Source.declaration (Imports.ofItems inner) scope (Source.writtenName trait)
      ⟨Source.visibility trait, true, false⟩
      ((trait.child? .generics).isNone && (trait.child? .whereClause).isNone) method ∈
        Source.ofTrait (Imports.ofItems inner) scope trait := List.mem_map_of_mem isMethod.method_mem
  have stands := Source.Stands.method isMethod.within isMethod.mem isMethod.isTrait declared
  exact ⟨_, bind_eq_ok.mpr ⟨items, read, rfl⟩, _, stands.mem_ofItems, rfl, rfl, rfl,
    Source.template_declaration carries _ _ _ _⟩

/-- A template with a quote, a backslash, a line end and NUL in front of a digit. -/
def Source.oddTemplate : String := "[x]\"\\\n\x007"

/-- A trait whose method carries the template as it is written. -/
def Source.oddTrait : String :=
  "pub trait T \x7b #[exprbind::expression(\"[x]\\\"\\\\\\n\\x007\")] fn g(x: f64) -> f64; \x7d"

theorem Literal.quote_survives_of_oddTemplate :
    (∃ ts, AcceptedGenerator.default.1.context.statement
        (.declareEvaluator "evaluator" Source.oddTemplate true) = .ok ts ∧
      Token.literalsList ts = [quote Source.oddTemplate]) ∧
    (∃ ts, AcceptedGenerator.default.1.context.statement
        (.bindParameter "evaluator" Source.oddTemplate "x") = .ok ts ∧
      Token.literalsList ts = [quote Source.oddTemplate]) ∧
    ∃ ds, Source.declarations Source.oddTrait "crate" = .ok ds ∧
      ∃ d ∈ ds, d.container = "T" ∧ d.name = "g" ∧
        (d.candidate .standard).template = some Source.oddTemplate := by
  have none : (Token.literalsList AcceptedGenerator.default.1.context.evaluator.tokens,
      Token.literalsList AcceptedGenerator.default.1.context.runtime.tokens) = ([], []) := by
    decide +kernel
  obtain ⟨evaluator, runtime⟩ := Prod.mk.inj none
  obtain ⟨declares, binds, -, -, adapter⟩ := quote_survives Source.oddTemplate
  refine ⟨?_, ?_, ?_⟩
  · have made : (AcceptedGenerator.default.1.context.statement
        (.declareEvaluator "evaluator" Source.oddTemplate true)).toOption.isSome = true := by
      decide +kernel
    obtain ⟨ts, written⟩ := Option.isSome_iff_exists.mp made
    refine ⟨ts, eq_ok_of_toOption written, ?_⟩
    rw [declares _ _ _ _ (eq_ok_of_toOption written), evaluator, runtime]
    rfl
  · have made : (AcceptedGenerator.default.1.context.statement
        (.bindParameter "evaluator" Source.oddTemplate "x")).toOption.isSome = true := by
      decide +kernel
    obtain ⟨ts, written⟩ := Option.isSome_iff_exists.mp made
    refine ⟨ts, eq_ok_of_toOption written, ?_⟩
    rw [binds _ _ _ _ (eq_ok_of_toOption written), runtime]
    rfl
  have read : (Grammar.readFile Source.oddTrait).toOption.map (fun items =>
      (items.find? (Phrase.is .traitItem)).map fun trait =>
        (Source.functions trait).map fun method =>
          ((Source.writtenName trait, Source.functionName method),
            Source.soleLiteral? .standard (Imports.ofItems items) method)) =
      some (some [(("T", "g"), some (quote Source.oddTemplate))]) := by decide +kernel
  obtain ⟨items, hitems, read⟩ := Option.map_eq_some_iff.mp read
  obtain ⟨trait, found, methods⟩ := Option.map_eq_some_iff.mp read
  obtain ⟨method, only, parts⟩ := List.map_eq_singleton_iff.mp methods
  obtain ⟨names, literal⟩ := Prod.mk.inj parts
  obtain ⟨container, name⟩ := Prod.mk.inj names
  obtain ⟨e, carries⟩ := Source.hasArguments_of_soleLiteral? literal
  have file : Grammar.readFile Source.oddTrait = .ok items := eq_ok_of_toOption hitems
  obtain ⟨ds, declared, d, mem, -, at_, called, template⟩ := adapter _ "crate" items file "crate"
    items trait method ⟨.root, List.mem_of_find?_eq_some found, List.find?_some found,
      only ▸ List.mem_singleton_self method⟩ .standard e carries
  have filled : Text.trim Source.oddTemplate ≠ "" := by decide +kernel
  rw [if_neg filled] at template
  exact ⟨ds, declared, d, mem, at_.trans container, called.trans name, template⟩

end FormulaBinding
