import FormulaBinding.Declaration.Basic
import FormulaBinding.Declaration.Imports

/-! # Declarations of a source text

The methods of traits and the functions of foreign blocks are declarations. Modules are searched
with the imports of their own. -/
namespace FormulaBinding.Source

/-- The text of an attribute's argument list read as arguments. -/
def argumentOf (p : Phrase) : Argument :=
  let own := p.parts.filter (!Phrase.is .outerAttribute ·)
  match p.kind?, own with
  | some .literalExpr, [.token (.literal t _)] =>
    match Literal.stringValue? t with
    | some value => .literal value
    | none => .expression p.text
  | some .assignExpr, left :: _ :: right =>
    .named left.text (Token.textList (Phrase.tokensList right))
  | _, _ => .expression p.text

/-- The arguments in a group: expressions between commas or, where that cannot be read, the whole
text as one. -/
def argumentsOf (body : List Token) : List Argument :=
  match Grammar.readExpressions body with
  | .ok ps => ps.map argumentOf
  | .error _ => [.expression (Token.textList body)]

def attributeContent (p : Phrase) : List Phrase := (p.groupParts? .bracket).getD []

def attributePath (p : Phrase) : List String :=
  (attributeContent p).head?.elim [] fun path =>
    (path.children .segment).filterMap fun s => s.parts.head?.bind Phrase.word?

/-- An attribute with its identity among some imports. -/
def annotationOf (imports : Imports) (p : Phrase) : Annotation :=
  let (scope, name) := imports.resolve (attributePath p)
  { scope, name
    arguments := match attributeContent p with
      | [_, .token (.group _ body _ _)] => argumentsOf body
      | _ => [] }

/-- The attributes of a declaration: those in front of it and those at the start of its body. -/
def attributes (p : Phrase) : List Phrase :=
  p.children .outerAttribute ++
    ((p.groupParts? .brace).getD []).filter (Phrase.is .innerAttribute)

/-- The attributes of a declaration with their identities. -/
def annotations (imports : Imports) (p : Phrase) : List Annotation :=
  (attributes p).map (annotationOf imports)

def visibility (p : Phrase) : Visibility :=
  match p.child? .visibility with
  | none => .own
  | some v => if (v.groupParts? .parenthesis).isSome then .restricted else .everyone

def nameOf (p : Phrase) : String :=
  Identifier.stored (((p.child? .itemName).bind fun n => n.parts.head?.bind Phrase.word?).getD "")

def writtenName (p : Phrase) : String :=
  ((p.child? .itemName).bind fun n => n.parts.head?.bind Phrase.word?).getD ""

def receiverOf (p : Phrase) : Receiver :=
  let start := p.parts.takeWhile (!Phrase.isMark ':' ·)
  if start.any (Phrase.isMark '&') then
    if start.any (Phrase.isWord "mut") then .exclusive else .shared
  else .owned

def boundName? (p : Phrase) : Option String :=
  if !p.is .namePattern || p.hasWord "ref" || p.hasMark '@' then none
  else ((p.parts.filter (!Phrase.isWord "mut" ·)).head?.bind Phrase.word?).map Identifier.stored

def parameter? (p : Phrase) : Option Parameter :=
  let own := p.parts.filter (!Phrase.is .outerAttribute ·)
  match own with
  | pattern :: _ :: type =>
    (boundName? pattern).map fun name => ⟨name, Token.textList (Phrase.tokensList type)⟩
  | _ => none

def inputs (signature : Phrase) : List Phrase :=
  ((signature.groupParts? .parenthesis).getD []).filter fun p => p.kind?.isSome

/-- Whether a signature has a shape that can be repeated: no generic parameters, no where clause,
no modifiers, a receiver without a type, and parameters that are names. -/
def isPlain (signature : Phrase) : Bool :=
  let special := [Kind.generics, .whereClause, .functionModifier, .foreignInterface]
  (signature.parts.all fun p => !(p.kind?.any special.contains)) &&
    (inputs signature).all fun p =>
      if p.is .receiver then !p.hasMark ':' else p.is .parameter && (parameter? p).isSome

/-- The text of the declared result type; empty if there is none. -/
def returnType (signature : Phrase) : String :=
  match signature.child? .returnType with
  | some r => Token.textList (Phrase.tokensList (r.parts.filter fun p => p.kind?.isSome))
  | none => ""

def declaration (imports : Imports) (scope container : String) (modifiers : Modifiers)
    (plain : Bool) (p : Phrase) : Declaration :=
  let signature := (p.child? .signature).getD (.node .signature [])
  { name := nameOf signature
    container, scope
    receiver := ((inputs signature).filter (Phrase.is .receiver)).getLast?.map receiverOf
    parameters := ((inputs signature).filter (Phrase.is .parameter)).filterMap parameter?
    returnType := returnType signature
    modifiers
    annotations := annotations imports p
    hasBody := (p.groupParts? .brace).isSome
    fixedShape := plain && isPlain signature }

def functions (p : Phrase) : List Phrase :=
  ((p.groupParts? .brace).getD []).filter (Phrase.is .functionItem)

def ofTrait (imports : Imports) (scope : String) (p : Phrase) : List Declaration :=
  let plain := (p.child? .generics).isNone && (p.child? .whereClause).isNone
  let modifiers : Modifiers := ⟨visibility p, true, false⟩
  (functions p).map (declaration imports scope (writtenName p) modifiers plain)

def ofForeign (imports : Imports) (scope : String) (p : Phrase) : List Declaration :=
  (functions p).map fun f =>
    { declaration imports scope "" ⟨visibility f, false, true⟩ true f with hasBody := false }

mutual

def ofItem (imports : Imports) (scope : String) : Phrase → List Declaration
  | .node .moduleItem parts =>
    ofModuleParts (scope ++ "::" ++ writtenName (.node .moduleItem parts)) parts
  | .node .traitItem parts => ofTrait imports scope (.node .traitItem parts)
  | .node .foreignItem parts => ofForeign imports scope (.node .foreignItem parts)
  | _ => []

def ofModuleParts (scope : String) : List Phrase → List Declaration
  | [] => []
  | .group _ items _ _ :: ps =>
    ofItems (Imports.ofItems items) scope items ++ ofModuleParts scope ps
  | _ :: ps => ofModuleParts scope ps

def ofItems (imports : Imports) (scope : String) : List Phrase → List Declaration
  | [] => []
  | p :: ps => ofItem imports scope p ++ ofItems imports scope ps

end

/-- The declarations of a source text whose own module has the given path. -/
def declarations (text scope : String) : Except ParseError (List Declaration) := do
  let items ← Grammar.readFile text
  return ofItems (Imports.ofItems items) scope items

end FormulaBinding.Source
