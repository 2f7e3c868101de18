import FormulaBinding.Layout.Tokens

/-! # Layout of attributes, paths, types and bounds

The rules are plain definitions over a function `lay` that lays out the phrases inside. -/
namespace FormulaBinding.Layout
open Doc
open Phrase (rolesOf afterMark beforeMark)

variable (lay : Phrase → List Doc)

def closeText (p : Phrase) : String := String.join (Token.wordsList p.tokens)

def isSeparator (p : Phrase) : Bool := p.isMark ','

def elements (ps : List Phrase) : List Phrase := ps.filter (!isSeparator ·)

def nameText (p : Phrase) : String := (p.parts.findSome? Phrase.word?).getD ""

def declaredName (p : Phrase) : String := (p.child? .itemName).elim "" nameText

/-- A word followed by a blank, if it stands directly inside. -/
def keyword? (w : String) (p : Phrase) : List Doc := if p.hasWord w then word (w ++ " ") else []

/-- Where a path stands: there its arguments are dropped, written, or written after two colons. -/
inductive PathUse where
  | simple
  | type
  | expr
  deriving DecidableEq

/-- The bounds in a row, without the plus signs between them. -/
def boundParts (ps : List Phrase) : List Phrase :=
  ps.filter fun p => p.is .traitBound || p.is .lifetimeBound || p.is .capture || p.is .verbatimBound

def genericArgumentDocs (use : PathUse) (p : Phrase) : List Doc :=
  let args := p.parts.filter fun a => (a.kind?).isSome
  if args.isEmpty || use = .simple then []
  else
    (if use = .expr then word "::" else []) ++ word "<" ++ cbox step (listBody (args.map lay)) ++
      word ">"

def returnDocs (p : Phrase) : List Doc :=
  match p.child? .returnType with
  | some r => word " -> " ++ (r.parts.filter fun t => t.kind?.isSome).flatMap lay
  | none => []

/-- The arguments and the result of a function-like bound. -/
def callArgumentDocs (p : Phrase) : List Doc :=
  let args := elements ((p.groupParts? .parenthesis).getD [])
  cbox step (word "(" ++ listBody (args.map lay) ++ word ")" ++ returnDocs lay p)

def segmentDocs (use : PathUse) (p : Phrase) : List Doc :=
  word (nameText p) ++ (p.children .genericArguments).flatMap (genericArgumentDocs lay use) ++
    (p.children .callArguments).flatMap (callArgumentDocs lay)

def pathDocs (use : PathUse) (p : Phrase) : List Doc :=
  let leading := p.parts.head?.any (Phrase.isMark ':')
  let segments := (p.children .segment).map (segmentDocs lay use)
  (if leading then word "::" else []) ++ joined "::" segments

def qualifiedPathDocs (use : PathUse) (p : Phrase) : List Doc :=
  let source :=
    (p.parts.filter fun q => q.kind?.isSome && !q.is .segment && !q.is .path).flatMap lay
  let trait := (p.children .path).flatMap fun t => word " as " ++ pathDocs lay .type t
  let segments := (p.children .segment).flatMap fun s => word "::" ++ segmentDocs lay use s
  word "<" ++ source ++ trait ++ word ">" ++ segments

def innerPathDocs (use : PathUse) (p : Phrase) : List Doc :=
  p.parts.flatMap fun q =>
    match q.kind? with
    | some .path => pathDocs lay use q
    | some .simplePath => pathDocs lay .simple q
    | some .qualifiedPath => qualifiedPathDocs lay use q
    | _ => []

/-- The path of an attribute as text, and what follows the path. -/
def attributeParts (p : Phrase) : String × List Phrase :=
  match (p.groupParts? .bracket).getD [] with
  | path :: rest => (closeText path, rest)
  | [] => ("", [])

def attributeText? (name : String) (p : Phrase) : Option String :=
  match attributeParts p with
  | (path, [_, .node .literalExpr [.token (.literal value _)]]) =>
    if path = name then Literal.stringValue? value else none
  | _ => none

def attributeDocs (inner : Bool) (p : Phrase) : List Doc :=
  let (path, rest) := attributeParts p
  let content := match rest with
    | [.token t] => (argumentToken .mark true t).1
    | _ :: value => word " = " ++ value.flatMap lay
    | [] => []
  word (if inner then "#!" else "#") ++ word "[" ++ word path ++ content ++ word "]" ++ [space]

/-- An attribute; documentation is written as a comment where it can be one. -/
def attributeOrComment (p : Phrase) : List Doc :=
  let inner := p.is .innerAttribute
  let comment := match attributeText? "doc" p, attributeText? "comment" p with
    | some said, _ =>
      if inner then comment? "//!" "/*!" [] [] said
      else comment? "///" "/**" ['/'] ['*', '/'] said
    | none, some said => comment? "//" "/*" [] ['*', '!'] said
    | none, none => none
  comment.getD (attributeDocs lay inner p)

def outerAttributeDocs (p : Phrase) : List Doc :=
  (p.children .outerAttribute).flatMap (attributeOrComment lay)

def innerAttributeDocs (ps : List Phrase) : List Doc :=
  (ps.filter (Phrase.is .innerAttribute)).flatMap (attributeOrComment lay)

/-- The lifetimes that a bound or a type is generic over. -/
def forLifetimesDocs (p : Phrase) : List Doc :=
  word "for<" ++ joined ", " ((p.children .genericParameter).map lay) ++ word "> "

def traitDocs (ps : List Phrase) : List Doc :=
  (ps.filter (Phrase.is .forLifetimes)).flatMap (forLifetimesDocs lay) ++
    (if ps.any (Phrase.isMark '?') then word "?" else []) ++
    (ps.filter (Phrase.is .path)).flatMap (pathDocs lay .type)

def boundDocs (p : Phrase) : List Doc :=
  if p.is .traitBound then
    match p.parts with
    | [.group .parenthesis ps _ _] => word "(" ++ traitDocs lay ps ++ word ")"
    | ps => traitDocs lay ps
  else if p.is .capture then
    let captured := (p.parts.drop 1).filter fun q =>
      !isSeparator q && !q.isMark '<' && !q.isMark '>'
    word "use<" ++ joined ", " (captured.map fun q => word (closeText q)) ++ word ">"
  else if p.is .verbatimBound then word p.text
  else word (closeText p)

def boundsAfterName (ps : List Phrase) : List Doc :=
  match (boundParts ps).map (boundDocs lay) with
  | [] => []
  | first :: rest => word ": " ++ first ++ rest.flatMap fun d => space :: (word "+ " ++ d)

def genericParameterDocs (p : Phrase) : List Doc :=
  let attributes := outerAttributeDocs lay p
  let parts := p.parts.filter (!Phrase.is .outerAttribute ·)
  let default := afterMark '=' parts
  match parts with
  | .token (.lifetime t _) :: rest =>
    let names := rest.filterMap fun
      | .token (.lifetime t _) => some (word t)
      | _ => none
    attributes ++ word t ++ if names.isEmpty then [] else word ": " ++ joined " + " names
  | first :: rest =>
    if first.isWord "const" then
      let type := rolesOf (beforeMark '=' rest)
      attributes ++ word ("const " ++ nameText (.node .path rest) ++ ": ") ++ type.flatMap lay ++
        if default.isEmpty then [] else word " = " ++ default.flatMap lay
    else
      attributes ++ word (closeText first) ++
        ibox step (boundsAfterName lay (beforeMark '=' rest) ++
          if default.isEmpty then [] else space :: (word "= " ++ default.flatMap lay))
  | [] => attributes

def genericsDocs (p : Phrase) : List Doc :=
  match p.child? .generics with
  | some g =>
    let parameters := (g.children .genericParameter).map (genericParameterDocs lay)
    if parameters.isEmpty then [] else word "<" ++ cbox 0 (listBody parameters) ++ word ">"
  | none => []

/-- Elements of a tuple in parentheses; a single one is always followed by a comma. -/
def tupleDocs (docs : List (List Doc)) : List Doc :=
  let body := match docs with
    | [d] => shiftLast (-step) (zeroBreak :: (d ++ [.text ",", zeroBreak]))
    | _ => listBody docs
  word "(" ++ cbox step body ++ word ")"

def interfaceDocs (p : Phrase) : List Doc :=
  (p.children .foreignInterface).flatMap fun i =>
    word (String.join ((Token.wordsList i.tokens).map (· ++ " ")))

def functionParameterDocs (p : Phrase) : List Doc :=
  let parts := p.parts.filter (!Phrase.is .outerAttribute ·)
  let content :=
    if p.is .variadic then
      match parts with
      | name :: _ =>
        word (if name.isMark '.' then "..." else closeText name ++ ": ...")
      | [] => []
    else
      match parts with
      | [type] => lay type
      | name :: rest => word (closeText name ++ ": ") ++ (rolesOf rest).flatMap lay
      | [] => []
  outerAttributeDocs lay p ++ content

/-- Parameters in a box, after which a variable number of others may follow. -/
def parameterBody (parameters : List (List Doc)) (variadic : List (List Doc)) : List Doc :=
  match variadic with
  | [] => listBody parameters
  | last :: _ =>
    let before := parameters.flatMap fun d => d ++ [.text ",", space]
    shiftLast (-step) (zeroBreak :: (before ++ last ++ [zeroBreak]))

def functionTypeDocs (p : Phrase) : List Doc :=
  let inside := elements ((p.groupParts? .parenthesis).getD [])
  let parameters := inside.filter (Phrase.is .functionParameter)
  let variadic := inside.filter (Phrase.is .variadic)
  (p.children .forLifetimes).flatMap (forLifetimesDocs lay) ++ keyword? "unsafe" p ++
    interfaceDocs p ++ word "fn(" ++
    cbox step (parameterBody (parameters.map (functionParameterDocs lay))
      (variadic.map (functionParameterDocs lay))) ++
    word ")" ++ returnDocs lay p

def macroCallDocs (p : Phrase) : List Doc :=
  let path := innerPathDocs lay .simple p
  let group := p.parts.findSome? fun
    | .token t@(.group _ _ _ _) => some t
    | _ => none
  path ++ word "!" ++ (group.map macroGroup).getD []

def boundsDocs (p : Phrase) : List Doc := joined " + " ((boundParts p.parts).map (boundDocs lay))

def typeDocs? (k : Kind) (p : Phrase) : Option (List Doc) :=
  let inside (d : Delimiter) : List Phrase := (p.groupParts? d).getD []
  match k with
  | .pathType => some (innerPathDocs lay .type p)
  | .macroType => some (macroCallDocs lay p)
  | .tupleType => some (tupleDocs ((elements (inside .parenthesis)).map lay))
  | .parenType => some (word "(" ++ (inside .parenthesis).flatMap lay ++ word ")")
  | .referenceType =>
    let lifetime := p.parts.findSome? fun
      | .token (.lifetime t _) => some (word (t ++ " "))
      | _ => none
    some (word "&" ++ lifetime.getD [] ++ keyword? "mut" p ++ (rolesOf p.parts).flatMap lay)
  | .pointerType =>
    some (word "*" ++ keyword? "mut" p ++ keyword? "const" p ++ (rolesOf p.parts).flatMap lay)
  | .arrayType =>
    some (word "[" ++ joined "; " ((rolesOf (inside .bracket)).map lay) ++ word "]")
  | .sliceType => some (word "[" ++ (inside .bracket).flatMap lay ++ word "]")
  | .functionType => some (functionTypeDocs lay p)
  | .neverType => some (word "!")
  | .inferredType => some (word "_")
  | .boundsType =>
    some (word (if p.hasWord "impl" then "impl " else "dyn ") ++ boundsDocs lay p)
  | .dynamicType => some (word "dyn " ++ boundsDocs lay p)
  | .lifetimeArgument => some (word (closeText p))
  | .typeArgument => some (p.parts.flatMap lay)
  | .constArgument =>
    match p.parts with
    | [e] =>
      if e.is .literalExpr || e.is .blockExpr then some (lay e)
      else some (word "\x7b" ++ lay e ++ word "\x7d")
    | _ => none
  | .binding =>
    let arguments := (p.children .genericArguments).flatMap (genericArgumentDocs lay .type)
    some (word (nameText p) ++ arguments ++ word " = " ++
      (rolesOf (afterMark '=' p.parts)).flatMap lay)
  | .constraint =>
    let arguments := (p.children .genericArguments).flatMap (genericArgumentDocs lay .type)
    some (word (nameText p) ++ arguments ++ ibox step (boundsAfterName lay p.parts))
  | .genericParameter => some (genericParameterDocs lay p)
  | _ => none

end FormulaBinding.Layout
