import FormulaBinding.Expansion.Arguments
import FormulaBinding.Generation

/-! # Expanding a trait in place

A trait with arguments expands to the trait without its markers, the units generated for it, and a
report for each problem. A report is itself written as tokens: an error stops a compiler, a warning
is a use of something deprecated. Every report points at a token of the arguments or the trait. -/
namespace FormulaBinding

/-- A problem that an expansion reports, at a token if it is about one. -/
structure Report where
  severity : Severity
  message : String
  place : Option (Position × String) := none
  deriving DecidableEq, Repr, Inhabited

namespace Report
open Token

def warningName : String := "exprbind_warning"

def ofFailure (text : String) (e : ParseError) : Report :=
  ⟨.error, e.message, e.place.map (Extent.shownIn text)⟩

def tokens (r : Report) : List Token :=
  match r.severity with
  | .error =>
    op "::" ++ ident "core" ++ op "::" ++ ident "compile_error" ++ op "!" ++
      inBraces (quoted r.message)
  | .warning =>
    names ["const", "_"] ++ op ":" ++ inParens [] ++ op "=" ++
      inBraces (
        op "#" ++ inBrackets (ident "deprecated" ++
          inParens (ident "note" ++ op "=" ++ quoted r.message)) ++
        op "#" ++ inBrackets (ident "allow" ++ inParens (ident "non_upper_case_globals")) ++
        names ["const", warningName] ++ op ":" ++ inParens [] ++ op "=" ++ inParens [] ++ op ";" ++
        names ["let", "_"] ++ op "=" ++ ident warningName ++ op ";") ++
      op ";"

end Report

/-- The expansion of a trait: its own tokens, those of the units, and the reports. Where the
arguments or the trait cannot be read there is nothing but a report. -/
structure Expansion where
  item : List Token := []
  units : List (List Token) := []
  reports : List Report := []

def Expansion.tokens (e : Expansion) : List Token :=
  e.item ++ e.units.flatten ++ e.reports.flatMap Report.tokens

namespace BoundTrait

/-- Whether an attribute is the marker, by its identity among some imports. -/
def isMarker (m : Marker) (imports : Imports) (p : Phrase) : Bool :=
  (Source.annotationOf imports p).isMarker m

/-- Whether a phrase is an attribute of the given kind that is the marker. -/
def isMarkerOf (m : Marker) (imports : Imports) (k : Kind) (p : Phrase) : Bool :=
  p.is k && isMarker m imports p

/-- A part of a method without markers: attributes in front of the method stand beside its other
parts, attributes of its body at the beginning of the braces. -/
def stripPart (m : Marker) (imports : Imports) : Phrase → List Phrase
  | .group .brace parts o c =>
    [.group .brace (parts.filter (!isMarkerOf m imports .innerAttribute ·)) o c]
  | p => if isMarkerOf m imports .outerAttribute p then [] else [p]

def stripMethod (m : Marker) (imports : Imports) : Phrase → Phrase
  | .node .functionItem parts => .node .functionItem (parts.flatMap (stripPart m imports))
  | p => p

def strip (m : Marker) (imports : Imports) : Phrase → Phrase
  | .node .traitItem parts =>
    .node .traitItem (parts.map fun
      | .group .brace items o c => .group .brace (items.map (stripMethod m imports)) o c
      | p => p)
  | p => p

def nameToken? (p : Phrase) : Option Token :=
  (p.child? .itemName).bind fun n => n.tokens.head?

def namePlace (p : Phrase) : Option Extent := (nameToken? p).map Token.head

def methodPlace? (p : Phrase) (name : String) : Option Extent :=
  let signatures := (Source.functions p).filterMap (Phrase.child? .signature)
  (signatures.find? fun s => Source.nameOf s == name).bind namePlace

/-- The place of the method with the given name, or else of the trait's name. -/
def placeFor (p : Phrase) (name : Option String) : Option Extent :=
  (name.bind (methodPlace? p)) <|> namePlace p

end BoundTrait

namespace Report

/-- The report of a marked method that is left out, given the text of the trait. -/
def ofRejection (text : String) (p : Phrase) (d : Declaration) (r : Rejection) : Report where
  severity := .error
  message := s!"`{d.name}` cannot receive a generated body: {r.message}"
  place := (BoundTrait.placeFor p (some d.name)).map (Extent.shownIn text)

/-- The report of a diagnostic, at the method whose name ends the name that the diagnostic is
about. -/
def ofDiagnostic (text : String) (p : Phrase) (d : Diagnostic) : Report where
  severity := d.severity
  message := d.text
  place := (BoundTrait.placeFor p (d.related.map Text.lastSegment)).map (Extent.shownIn text)

end Report

namespace Expansion

/-- The tokens of a unit's source; a source that cannot be cut into tokens is reported at the
trait's name. -/
def unitTokens (text : String) (p : Phrase) (u : SourceUnit) : Except Report (List Token) :=
  (Grammar.tokensOf u.source).mapError fun e =>
    ⟨.error, s!"generated unit `{u.fileName}` does not lex: {e.message}",
      (BoundTrait.namePlace p).map (Extent.shownIn text)⟩

/-- The expansion of a trait with its text by an accepted configuration, the trait named through the
given module path. A marked method that is left out is reported, and then nothing is generated. -/
def ofTrait (g : Generator) (scope text : String) (p : Phrase) : Expansion :=
  let marker := g.configuration.marker
  let imports := Imports.ofMarker marker
  let declarations := Source.ofTrait imports scope p
  let item := (BoundTrait.strip marker imports p).tokens
  match Declaration.markedRejections marker declarations with
  | [] =>
    let output := g.generate declarations
    match output.units.mapM (unitTokens text p) with
    | .ok units => { item, units, reports := output.diagnostics.map (Report.ofDiagnostic text p) }
    | .error report => { item, reports := [report] }
  | rejections => { item, reports := rejections.map fun (d, r) => Report.ofRejection text p d r }

/-- The expansion of a trait with arguments, given the texts of both. A configuration that is
refused leaves the trait as it is. -/
def ofArguments (arguments item : String) (a : BindingArguments) (p : Phrase) : Expansion :=
  match a.configuration with
  | .error e => { item := p.tokens, reports := [Report.ofFailure arguments e] }
  | .ok c =>
    match Generator.make c with
    | .error e => { item := p.tokens, reports := [{ severity := .error, message := e.message }] }
    | .ok g => ofTrait g a.scope item p

/-- The expansion of the text of a trait with that of its arguments, both of which have to be texts
of tokens. -/
def ofTexts (arguments item : String) : Except ParseError Expansion := do
  let argumentTokens ← Grammar.tokensOf arguments
  let itemTokens ← Grammar.tokensOf item
  return match BindingArguments.ofTokens argumentTokens with
  | .error e => { reports := [Report.ofFailure arguments e] }
  | .ok a =>
    match Grammar.readTrait itemTokens with
    | .error e => { reports := [Report.ofFailure item e] }
    | .ok p => ofArguments arguments item a p

end Expansion
end FormulaBinding
