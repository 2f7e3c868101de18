import FormulaBinding.Layout.Control

/-! # Layout of declarations and files -/
namespace FormulaBinding.Layout
open Doc
open Phrase (ownParts rolesOf afterMark beforeMark)

variable (lay : Phrase → List Doc)

/-- The visibility of a declaration: the keyword in front of a path is dropped where it may be. -/
def visibilityDocs (p : Phrase) : List Doc :=
  match p.child? .visibility with
  | some v =>
    let restriction := (v.groupParts? .parenthesis).map fun ps =>
      let path := String.join ((ps.filter fun q => !q.isWord "in").map closeText)
      "(" ++ (if path ∈ ["self", "super", "crate"] then "" else "in ") ++ path ++ ")"
    word ("pub" ++ restriction.getD "" ++ " ")
  | none => []

def predicatesOf (p : Phrase) : List Phrase :=
  (p.children .whereClause).flatMap fun w => w.children .predicate

/-- The bounds of a predicate: a break may stand in front of every bound but the first. -/
def predicateBounds : List (List Doc) → List Doc
  | [] => []
  | first :: rest => word " " ++ first ++ rest.flatMap fun d => space :: (word "+ " ++ d)

def predicateDocs (p : Phrase) : List Doc :=
  match beforeMark ':' p.parts with
  | [.token (.lifetime t _)] =>
    let bounds := (afterMark ':' p.parts).filterMap fun
      | .token (.lifetime t _) => some (word t)
      | _ => none
    word t ++ word ":" ++ ibox step (predicateBounds bounds)
  | before =>
    let bounds := (boundParts (afterMark ':' p.parts)).map (boundDocs lay)
    (before.filter (Phrase.is .forLifetimes)).flatMap (forLifetimesDocs lay) ++
      (before.filter (!Phrase.is .forLifetimes ·)).flatMap lay ++ word ":" ++
      ibox (if bounds.length = 1 then 0 else step) (predicateBounds bounds)

def clauseBeforeBody (p : Phrase) : List Doc :=
  match (predicatesOf p).map (predicateDocs lay) with
  | [] => word " "
  | ds =>
    shiftLast (-step) [lineEnd] ++ word "where" ++ ds.flatMap (fun d => lineEnd :: d ++ word ",") ++
      shiftLast (-step) [lineEnd]

def clauseBeforeSemicolon (p : Phrase) : List Doc :=
  match (predicatesOf p).map (predicateDocs lay) with
  | [] => word ";"
  | first :: rest =>
    shiftLast (-step) [lineEnd] ++ word "where" ++ [lineEnd] ++ first ++
      rest.flatMap (fun d => .text "," :: lineEnd :: d) ++ word ";"

/-- A where clause that may stand on the line of a declaration that goes on behind it: a blank if
there is none. -/
def clauseInLine (p : Phrase) : List Doc :=
  match (predicatesOf p).map (predicateDocs lay) with
  | [] => word " "
  | ds =>
    shiftLast (-step) [space] ++ word "where" ++ [space] ++
      shiftLast (-step) (commas (commaEnd 1) ds)

/-- A where clause that may stand on the line of a declaration that ends behind it. -/
def clauseAtEnd (p : Phrase) : List Doc :=
  match (predicatesOf p).map (predicateDocs lay) with
  | [] => word ";"
  | first :: rest =>
    shiftLast (-step) [space] ++ word "where" ++ [space] ++ first ++
      rest.flatMap (fun d => .text "," :: space :: d) ++ word ";"

/-- A declaration in a box: what stands in front of its braces, and its members. -/
def bodyDocs (start : List Doc) (attributes members : List Doc) : List Doc :=
  let body := shiftLast (-step) (lineEndIfMore :: (attributes ++ members))
  cbox step (start ++ word "\x7b" ++ body) ++ word "\x7d" ++ [lineEnd]

def membersOf (p : Phrase) : List Phrase :=
  ((p.groupParts? .brace).getD []).filter fun q => q.kind?.isSome && !q.is .innerAttribute

def bodyAttributes (p : Phrase) : List Doc :=
  innerAttributeDocs lay ((p.groupParts? .brace).getD [])

def parameterDocs (p : Phrase) : List Doc :=
  let parts := ownParts p
  let content :=
    if p.is .receiver then
      let start := beforeMark ':' parts
      let lifetime := start.findSome? fun
        | .token (.lifetime t _) => some (t ++ " ")
        | _ => none
      word ((if start.any (Phrase.isMark '&') then "&" else "") ++ lifetime.getD "" ++
        (if start.any (Phrase.isWord "mut") then "mut " else "") ++ "self") ++
        (rolesOf (afterMark ':' parts)).flatMap fun t => word ": " ++ lay t
    else if p.is .variadic then
      let name := rolesOf parts
      (if name.isEmpty then [] else name.flatMap lay ++ word ": ") ++ word "..."
    else
      (rolesOf (beforeMark ':' parts)).flatMap lay ++ word ": " ++
        (rolesOf (afterMark ':' parts)).flatMap lay
  outerAttributeDocs lay p ++ content

def signatureDocs (p : Phrase) : List Doc :=
  let modifiers := (p.children .functionModifier).flatMap fun m => word (closeText m ++ " ")
  let inside := elements ((p.groupParts? .parenthesis).getD [])
  let parameters := inside.filter (!Phrase.is .variadic ·)
  let variadic := inside.filter (Phrase.is .variadic)
  modifiers ++ interfaceDocs p ++ word "fn " ++ word (declaredName p) ++ genericsDocs lay p ++
    word "(" ++ [neverBreak] ++
    cbox 0
      (parameterBody (parameters.map (parameterDocs lay)) (variadic.map (parameterDocs lay))) ++
    word ")" ++ cbox (-step) (returnDocs lay p)

def functionDocs (p : Phrase) : List Doc :=
  let signature := (p.children .signature).headD (.node .signature [])
  let start := visibilityDocs p ++ keyword? "default" p ++ signatureDocs lay signature
  let attributes := outerAttributeDocs lay p
  if (p.groupParts? .brace).isSome then
    attributes ++ bodyDocs (start ++ clauseBeforeBody lay signature) (bodyAttributes lay p)
      ((membersOf p).flatMap (statementDocs lay))
  else attributes ++ cbox step (start ++ clauseBeforeSemicolon lay signature) ++ [lineEnd]

def fieldDocs (p : Phrase) : List Doc :=
  let parts := (ownParts p).filter (!Phrase.is .visibility ·)
  let name := (parts.filterMap Phrase.word?).head?
  outerAttributeDocs lay p ++ visibilityDocs p ++ (name.elim [] fun n => word (n ++ ": ")) ++
    (rolesOf parts).flatMap lay

/-- Fields without names: their breaks belong to the box around them. -/
def tupleFieldDocs (p : Phrase) : List Doc :=
  let fields := elements ((p.groupParts? .parenthesis).getD [])
  word "(" ++ listBody (fields.map (fieldDocs lay)) ++ word ")"

def fieldLines (p : Phrase) : List Doc :=
  (elements ((p.groupParts? .brace).getD [])).flatMap fun f =>
    fieldDocs lay f ++ word "," ++ [lineEnd]

def structDocs (p : Phrase) : List Doc :=
  let start := visibilityDocs p ++ word "struct " ++ word (declaredName p) ++ genericsDocs lay p
  outerAttributeDocs lay p ++
    match p.child? .fields with
    | some fields =>
      if (fields.groupParts? .brace).isSome then
        bodyDocs (start ++ clauseBeforeBody lay p) [] (fieldLines lay fields)
      else
        cbox step (start ++ tupleFieldDocs lay fields ++ clauseBeforeSemicolon lay p) ++ [lineEnd]
    | none => cbox step (start ++ clauseBeforeSemicolon lay p) ++ [lineEnd]

def variantDocs (p : Phrase) : List Doc :=
  let fields := match p.child? .fields with
    | some f =>
      if (f.groupParts? .brace).isSome then
        let docs := (elements ((f.groupParts? .brace).getD [])).map (fieldDocs lay)
        word " \x7b" ++
          cbox step (shiftLast (-step) (space :: commas (commaEnd 1) docs)) ++ word "\x7d"
      else cbox step (tupleFieldDocs lay f)
    | none => []
  let value := rolesOf (afterMark '=' (ownParts p))
  outerAttributeDocs lay p ++ word (nameText p) ++ fields ++
    if value.isEmpty then [] else word " = " ++ value.flatMap lay

def useWords (p : Phrase) : String :=
  String.join (p.parts.map fun q => if q.isWord "as" then " as " else closeText q)

/-- Whether a tree of imported names ends in a group. -/
def endsInGroup (p : Phrase) : Bool :=
  match p.tokens.getLast? with
  | some (.group _ _ _ _) => true
  | _ => false

def useTreeDocs (p : Phrase) : List Doc :=
  match p.kind? with
  | some .useTree => word (nameText p ++ "::") ++ (rolesOf p.parts).flatMap lay
  | some .useGroup =>
    let trees := elements ((p.groupParts? .brace).getD [])
    match trees with
    | [] => word "\x7b\x7d"
    | [tree] => if keepsBraces tree then bracedTrees trees else lay tree
    | _ => bracedTrees trees
  | _ => word (useWords p)
where
  /-- Whether a tree is the name of the group it stands in, which is only possible in braces. -/
  keepsBraces (p : Phrase) : Bool :=
    (p.is .useName || p.is .useRename) && (p.parts.head?.any (Phrase.isWord "self"))
  /-- Trees in braces. -/
  bracedTrees (trees : List Phrase) : List Doc :=
    word "\x7b" ++ cbox step (zeroBreak :: (ibox 0 (lines trees) ++
      shiftLast (-step) [commaEnd 0])) ++ word "\x7d"
  /-- Trees with commas between them: a line ends after a tree that ends in a group. -/
  lines : List Phrase → List Doc
    | [] => []
    | [t] => lay t
    | t :: ts => lay t ++ word "," ++ [if endsInGroup t then lineEnd else space] ++ lines ts

def typeParts (p : Phrase) : List Phrase × List Phrase :=
  let own := (ownParts p).filter fun q =>
    !q.is .visibility && !q.is .itemName && !q.is .generics && !q.is .whereClause
  (boundParts (beforeMark '=' own), rolesOf (afterMark '=' own))

def typeStart (p : Phrase) : List Doc :=
  visibilityDocs p ++ keyword? "default" p ++ word "type " ++ word (declaredName p) ++
    genericsDocs lay p

def typeItemDocs (p : Phrase) : List Doc :=
  outerAttributeDocs lay p ++
    cbox step (typeStart lay p ++ clauseInLine lay p ++ word "= " ++ [neverBreak] ++
      ibox (-step) ((typeParts p).2.flatMap lay) ++ word ";") ++ [lineEnd]

/-- A type declaration inside an implementation or a trait. -/
def memberTypeDocs (p : Phrase) : List Doc :=
  let (bounds, value) := typeParts p
  outerAttributeDocs lay p ++
    cbox step (typeStart lay p ++ boundsAfterName lay bounds ++
      (if value.isEmpty then []
        else word " = " ++ [neverBreak] ++ ibox (-step) (value.flatMap lay)) ++
      clauseAtEnd lay p) ++ [lineEnd]

/-- A declaration inside an implementation or a trait. -/
def memberItemDocs (p : Phrase) : List Doc :=
  if p.is .typeItem then memberTypeDocs lay p else lay p

/-- A declaration inside a foreign block, where a type is only named. -/
def foreignMemberDocs (p : Phrase) : List Doc :=
  if p.is .typeItem then
    outerAttributeDocs lay p ++ cbox 0 (typeStart lay p ++ word ";") ++ [lineEnd]
  else lay p

def traitAliasDocs (p : Phrase) : List Doc :=
  outerAttributeDocs lay p ++
    cbox step (visibilityDocs p ++ word "trait " ++ word (declaredName p) ++ genericsDocs lay p ++
      word " = " ++ [neverBreak] ++ aliasBounds ((boundParts p.parts).map (boundDocs lay)) ++
      clauseBeforeSemicolon lay p) ++ [lineEnd]
where
  /-- Bounds in a row: a break may stand in front of every bound but the first. -/
  aliasBounds : List (List Doc) → List Doc
    | [] => []
    | first :: rest => first ++ rest.flatMap fun d => space :: (word "+ " ++ d)

def implDocs (p : Phrase) : List Doc :=
  let parts := ownParts p
  let types := rolesOf (parts.filter fun q =>
    !q.is .generics && !q.is .whereClause && !q.is .visibility)
  let negative := if parts.any (Phrase.isMark '!') then word "!" else []
  let start := cbox step (keyword? "default" p ++ keyword? "unsafe" p ++ word "impl" ++
    genericsDocs lay p)
  let types := match types with
    | [trait, type] => negative ++ lay trait ++ [space] ++ word "for " ++ lay type
    | ts => ts.flatMap lay
  outerAttributeDocs lay p ++
    bodyDocs (ibox (-step) (start ++ word " " ++ types) ++ clauseBeforeBody lay p)
      (bodyAttributes lay p) ((membersOf p).flatMap (memberItemDocs lay))

def traitItemDocs (p : Phrase) : List Doc :=
  let bounds := (p.children .supertraits).flatMap fun s =>
    word ": " ++ boundsDocs lay s
  outerAttributeDocs lay p ++
    bodyDocs (visibilityDocs p ++ keyword? "unsafe" p ++ keyword? "auto" p ++ word "trait " ++
      word (declaredName p) ++ genericsDocs lay p ++ bounds ++ clauseBeforeBody lay p)
      (bodyAttributes lay p) ((membersOf p).flatMap (memberItemDocs lay))

def valueDocs (words : String) (p : Phrase) : List Doc :=
  let parts := (ownParts p).filter fun q => !q.is .visibility && !q.is .itemName
  let type := rolesOf (beforeMark '=' parts)
  let value := rolesOf (afterMark '=' parts)
  outerAttributeDocs lay p ++
    cbox 0 (visibilityDocs p ++ keyword? "default" p ++ word words ++
      word (declaredName p ++ ": ") ++ type.flatMap lay ++
      (if value.isEmpty then [] else word " = " ++ [neverBreak] ++ value.flatMap lay) ++
      word ";") ++ [lineEnd]

def macroItemDocs (p : Phrase) : List Doc :=
  let name := (ownParts p).findSome? Phrase.word?
  let path := p.child? .simplePath
  let group := p.parts.findSome? fun
    | .token t@(.group _ _ _ _) => some t
    | _ => none
  let isRules := path.any fun q => closeText q = "macro_rules"
  let content := match name, group with
    | some n, some (.group d body o c) =>
      if isRules then word (" " ++ n) ++ rulesDocs body
      else word (" " ++ n) ++ macroGroup (.group d body o c)
    | _, _ => (group.map macroGroup).getD []
  let ended := p.hasMark ';' && !(isRules && name.isSome)
  outerAttributeDocs lay p ++ innerPathDocs lay .simple p ++ word "!" ++ content ++
    (if ended then word ";" else []) ++ [lineEnd]

def itemDocs? (k : Kind) (p : Phrase) : Option (List Doc) :=
  let attributes := outerAttributeDocs lay p
  match k with
  | .structItem => some (structDocs lay p)
  | .implItem => some (implDocs lay p)
  | .functionItem => some (functionDocs lay p)
  | .traitItem => some (traitItemDocs lay p)
  | .constItem => some (valueDocs lay "const " p)
  | .staticItem => some (valueDocs lay (if p.hasWord "mut" then "static mut " else "static ") p)
  | .typeItem => some (typeItemDocs lay p)
  | .traitAliasItem => some (traitAliasDocs lay p)
  | .enumItem =>
    let variants := elements ((p.groupParts? .brace).getD [])
    some (attributes ++ bodyDocs (visibilityDocs p ++ word "enum " ++ word (declaredName p) ++
      genericsDocs lay p ++ clauseBeforeBody lay p) []
      (variants.flatMap fun v => variantDocs lay v ++ word "," ++ [lineEnd]))
  | .unionItem =>
    let fields := (p.children .fields).flatMap (fieldLines lay)
    some (attributes ++ bodyDocs (visibilityDocs p ++ word "union " ++ word (declaredName p) ++
      genericsDocs lay p ++ clauseBeforeBody lay p) [] fields)
  | .moduleItem =>
    let start := visibilityDocs p ++ keyword? "unsafe" p ++ word ("mod " ++ declaredName p)
    if (p.groupParts? .brace).isSome then
      some (attributes ++ bodyDocs (start ++ word " ") (bodyAttributes lay p)
        ((membersOf p).flatMap lay))
    else some (attributes ++ cbox step (start ++ word ";") ++ [lineEnd])
  | .foreignItem =>
    some (attributes ++ bodyDocs (keyword? "unsafe" p ++ interfaceDocs p) (bodyAttributes lay p)
      ((membersOf p).flatMap (foreignMemberDocs lay)))
  | .externCrateItem =>
    some (attributes ++ visibilityDocs p ++ word (String.join ((p.parts.filter fun q =>
      !q.is .visibility && !q.is .outerAttribute).map fun q =>
        if q.isWord "as" then " as " else if q.isWord "extern" || q.isWord "crate" then
          closeText q ++ " " else closeText q)) ++ [lineEnd])
  | .useItem =>
    let leading := (ownParts p).any (Phrase.isMark ':')
    let tree := (rolesOf (ownParts p)).filter (!Phrase.is .visibility ·)
    some (attributes ++ visibilityDocs p ++ word "use " ++ (if leading then word "::" else []) ++
      tree.flatMap lay ++ word ";" ++ [lineEnd])
  | .macroItem => some (macroItemDocs lay p)
  | .useTree => some (useTreeDocs lay p)
  | .useGroup => some (useTreeDocs lay p)
  | .useName => some (useTreeDocs lay p)
  | .useRename => some (useTreeDocs lay p)
  | .useGlob => some (useTreeDocs lay p)
  | .field => some (fieldDocs lay p)
  | _ => none

/-- The layout of a phrase up to a depth; a phrase without a rule is written as its text. -/
def layout : Nat → Phrase → List Doc
  | 0, p => word p.text
  | n + 1, p =>
    let lay := layout n
    match p.kind? with
    | some k =>
      (typeDocs? lay k p <|> patternDocs? lay k p <|> exprDocs? lay k p <|> controlDocs? lay k p <|>
        itemDocs? lay k p).getD (word p.text)
    | none => word p.text

def file (ps : List Phrase) : List Doc :=
  let lay := layout (2 * Phrase.depthList ps + 2)
  cbox 0 (innerAttributeDocs lay ps ++
    (ps.filter fun p => p.kind?.isSome && !p.is .innerAttribute).flatMap lay)

def fileText (ps : List Phrase) : String := Doc.render (file ps)

end FormulaBinding.Layout
