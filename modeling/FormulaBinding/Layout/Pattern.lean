import FormulaBinding.Layout.Type

/-! # Layout of patterns -/
namespace FormulaBinding.Layout
open Doc
open Phrase (ownParts rolesOf afterMark beforeMark)

variable (lay : Phrase → List Doc)

/-- Marks by themselves and phrases by their rules, close together. -/
def closeDocs (ps : List Phrase) : List Doc :=
  ps.flatMap fun
    | .token t => word (closeText (.token t))
    | p => lay p

/-- Elements in braces after a path: the last break writes a comma, unless a rest follows. -/
def braceBody (elements rest : List (List Doc)) : List Doc :=
  match elements, rest with
  | [], [] => [spaceIfMore]
  | _, [] => shiftLast (-step) (space :: commas (commaEnd 1) elements)
  | _, last :: _ =>
    shiftLast (-step) (space :: (elements.flatMap (fun d => d ++ [.text ",", space]) ++ last ++
      [space]))

def namePatternDocs (p : Phrase) : List Doc :=
  let parts := ownParts p
  let modifiers := keyword? "ref" p ++ keyword? "mut" p
  let name := parts.filterMap fun q => q.word?.filter fun w => w ≠ "ref" ∧ w ≠ "mut"
  let inner := rolesOf parts
  modifiers ++ word (name.headD "") ++
    if inner.isEmpty then [] else word " @ " ++ inner.flatMap lay

def fieldPatternDocs (p : Phrase) : List Doc :=
  let parts := ownParts p
  let inner := rolesOf (afterMark ':' parts)
  outerAttributeDocs lay p ++
    if inner.isEmpty then word (String.intercalate " " (parts.map closeText))
    else word (String.join ((beforeMark ':' parts).map closeText) ++ ": ") ++ inner.flatMap lay

/-- Whether a pattern is a literal or matches everything, so that several stand on one line. -/
def isPlainPattern (p : Phrase) : Bool :=
  match p.parts with
  | [q] => q.is .literalExpr || q.isWord "_"
  | _ => false

/-- Alternatives: a bar stands after every break. -/
def alternativeDocs (ps : List Phrase) : List Doc :=
  let cases := rolesOf ps
  let docs := match cases.map lay with
    | [] => []
    | first :: rest => first ++ rest.flatMap fun d => space :: (word "| " ++ d)
  if cases.all isPlainPattern then ibox 0 docs else cbox 0 docs

/-- Patterns in parentheses: a single one stays without a comma, unless one follows it. -/
def parenPatternDocs (parts : List Phrase) : List Doc :=
  match (elements parts).map lay with
  | [d] =>
    let comma := parts.any isSeparator
    if !comma && !parts.any (Phrase.is .restPattern) then word "(" ++ d ++ word ")"
    else
      word "(" ++ cbox step (shiftLast (-step) (zeroBreak :: (d ++
        (if comma then word "," else []) ++ [zeroBreak]))) ++ word ")"
  | ds => word "(" ++ cbox step (listBody ds) ++ word ")"

/-- The fields of a record pattern, and the dots for those that are left out; every one of them has
the attributes in front of it. -/
def fieldPatterns (attributes : List Doc) : List Phrase → List (List Doc) × List (List Doc)
  | [] => ([], [])
  | p :: ps =>
    if p.is .outerAttribute then fieldPatterns (attributes ++ attributeOrComment lay p) ps
    else if p.is .pattern then
      let (fields, rest) := fieldPatterns [] ps
      ((attributes ++ fieldPatternDocs lay p) :: fields, rest)
    else if p.isMark '.' then ([], [attributes ++ word ".."])
    else fieldPatterns attributes ps

/-- The path of a pattern with something in braces or parentheses: the type it starts from is not
written. -/
def patternPathDocs (p : Phrase) : List Doc :=
  p.parts.flatMap fun q =>
    let segments := q.children .segment
    match q.is .qualifiedPath, q.child? .path with
    | true, some trait => pathDocs lay .expr (.node .path (trait.parts ++ segments))
    | true, none => word "::" ++ pathDocs lay .expr (.node .path segments)
    | false, _ => pathDocs lay .expr q

/-- A pattern that is not a name: what it is made of tells which one it is. -/
def innerPatternDocs (parts : List Phrase) : List Doc :=
  if parts.any (Phrase.isMark '|') then alternativeDocs lay parts
  else
    match parts with
    | [path, .group .brace inside _ _] =>
      let (fields, rest) := fieldPatterns lay [] inside
      cbox step (patternPathDocs lay path ++ word " \x7b" ++ braceBody fields rest) ++ word "\x7d"
    | [path, .group .parenthesis inside _ _] =>
      patternPathDocs lay path ++ word "(" ++
        cbox step (listBody ((elements inside).map lay)) ++ word ")"
    | [.group .parenthesis inside _ _] => parenPatternDocs lay inside
    | [.group .bracket inside _ _] =>
      word "[" ++ commas (commaEnd 0) ((elements inside).map lay) ++ word "]"
    | .token (.mark '&' _ _) :: rest =>
      word "&" ++ (if rest.any (Phrase.isWord "mut") then word "mut " else []) ++
        (rolesOf rest).flatMap lay
    | _ => closeDocs lay parts

def patternDocs? (k : Kind) (p : Phrase) : Option (List Doc) :=
  match k with
  | .namePattern => some (namePatternDocs lay p)
  | .restPattern => some (word "..")
  | .openRangePattern => some (closeDocs lay (ownParts p))
  | .pattern =>
    if p.hasMark '!' then
      match rolesOf p.parts with
      | path :: _ => some (macroCallDocs lay (.node .macroExpr (path.parts ++ p.parts.drop 1)))
      | [] => none
    else some (outerAttributeDocs lay p ++ innerPatternDocs lay (ownParts p))
  | _ => none

end FormulaBinding.Layout
