import FormulaBinding.Layout.Pattern

/-! # Layout of expressions and statements -/
namespace FormulaBinding.Layout
open Doc
open Phrase (ownParts rolesOf afterMark beforeMark operatorText)

variable (lay : Phrase → List Doc)

/-- An operator between two expressions: a break may stand in front of it. -/
def binaryDocs (p : Phrase) : List Doc :=
  match ownParts p with
  | left :: rest =>
    ibox step (ibox (-step) (lay left) ++ [space] ++ word (operatorText rest ++ " ") ++
      (rolesOf rest).flatMap lay)
  | [] => []

/-- Whether an expression has brackets or braces of its own around it. -/
def isBlockLike (p : Phrase) : Bool :=
  let kinds := [Kind.arrayExpr, .asyncExpr, .blockExpr, .closureExpr, .constExpr,
    .recordExpr, .tryBlockExpr, .tupleExpr, .unsafeExpr]
  p.kind?.any kinds.contains && (p.children .outerAttribute).isEmpty

def callDocs (args : List Phrase) : List Doc :=
  match args with
  | [e] => if isBlockLike e then lay e else cbox step (listBody [lay e])
  | _ => cbox step (listBody (args.map lay))

def argumentsOf (p : Phrase) : List Phrase := elements ((p.groupParts? .parenthesis).getD [])

/-! ## Chains

Selections and calls one after the other stand in one box, so that either all of their dots start a
line or none. -/

/-- Whether an expression is a name that is no longer than a level of indentation. -/
def isShortName (p : Phrase) : Bool :=
  match p.kind?, p.tokens with
  | some .pathExpr, [.name t _] => t.utf8ByteSize ≤ 4
  | _, _ => false

/-- What follows the operand of a call, an index or a question mark. -/
def trailerDocs (p : Phrase) : List Doc :=
  match p.kind? with
  | some .callExpr => word "(" ++ callDocs lay (argumentsOf p) ++ word ")"
  | some .indexExpr => word "[" ++ ((p.groupParts? .bracket).getD []).flatMap lay ++ word "]"
  | some .tryExpr => word "?"
  | _ => []

/-- Whether an expression selects something from its operand. -/
def isSelection (p : Phrase) : Bool :=
  p.kind?.any [Kind.awaitExpr, .methodExpr, .fieldExpr].contains

/-- Whether an expression is an operand with something after it that is not a selection. -/
def isTrailer (p : Phrase) : Bool :=
  p.kind?.any [Kind.callExpr, .indexExpr, .tryExpr].contains

def operandOf (p : Phrase) : Phrase := (rolesOf (ownParts p)).headD (.node .path [])

/-- Whether an expression ends in a number that ends with its point. -/
def endsWithPoint (p : Phrase) : Bool :=
  match p.tokens.getLast? with
  | some (.literal t _) => t.endsWith "."
  | _ => false

/-- The break in front of a selection: the point of a number and the dot stay apart. -/
def breakBehind (operand : Phrase) : Doc :=
  .brk { unbroken := if endsWithPoint operand then " " else "" }

/-- What follows the operand of a selection; `shift` moves the arguments of a method. -/
def memberDocs (shift : Int) (p : Phrase) : List Doc :=
  match p.kind? with
  | some .awaitExpr => word ".await"
  | some .methodExpr =>
    let arguments := (p.children .genericArguments).flatMap (genericArgumentDocs lay .expr)
    word "." ++ word (nameText p) ++ arguments ++
      cbox shift (word "(" ++ callDocs lay (argumentsOf p) ++ word ")")
  | _ => word "." ++ word (String.join ((afterMark '.' (ownParts p)).map closeText))

/-- A chain inside the box of its last link. No break stands behind a short name that starts a
line. -/
def linkDocs (startsLine : Bool) : Nat → Phrase → List Doc
  | 0, p => lay p
  | n + 1, p =>
    let operand := operandOf p
    if isSelection p then
      linkDocs startsLine n operand ++
        (if startsLine && isShortName operand then [] else [breakBehind operand]) ++
        memberDocs lay 0 p
    else if isTrailer p then
      linkDocs (startsLine && !p.is .callExpr) n operand ++ trailerDocs lay p
    else cbox (-step) (lay p)

def chainDocs (startsLine : Bool) : Nat → Phrase → List Doc
  | 0, p => lay p
  | n + 1, p =>
    let operand := operandOf p
    if isSelection p then
      let short := startsLine && isShortName operand
      cbox step (linkDocs lay startsLine n operand ++
        (if short then [] else [breakBehind operand]) ++
        memberDocs lay (if short then -step else 0) p)
    else if isTrailer p then
      let before := if isSelection operand || isTrailer operand
        then chainDocs (startsLine && !p.is .callExpr) n operand
        else lay operand
      before ++ trailerDocs lay p
    else lay p

def lineDocs (p : Phrase) : List Doc :=
  if isSelection p || isTrailer p then outerAttributeDocs lay p ++ chainDocs lay true p.depth p
  else lay p

/-- Whether an expression at the end of a block is written with a semicolon. -/
def gainsSemicolon (p : Phrase) : Bool :=
  p.kind?.any [Kind.assignExpr, .compoundAssignExpr, .breakExpr, .continueExpr, .returnExpr,
    .yieldExpr].contains

/-- Whether an expression is written without the semicolon after it: a `for`, a `while`, and an `if`
that does not end in an alternative without a condition. -/
def losesSemicolon (p : Phrase) : Bool :=
  p.is .forExpr || p.is .whileExpr ||
    (p.is .ifExpr && !p.parts.getLast?.any (Phrase.is .blockExpr))

def statementExpr? (p : Phrase) : Option Phrase := (rolesOf p.parts).head?

/-- A block that may stand on one line if it holds a single expression. -/
def smallBlock (statementDocs : Phrase → List Doc) (p : Phrase) : List Doc :=
  let inside := (p.groupParts? .brace).getD []
  let attributes := innerAttributeDocs lay inside
  let statements := inside.filter fun q => q.kind?.isSome && !q.is .innerAttribute
  let content := match statements with
    | [s] =>
      if s.is .expressionStatement && !s.hasMark ';' then
        ibox 0 ((statementExpr? s).elim [] (lineDocs lay)) ++ [space]
      else statementDocs s
    | _ => statements.flatMap statementDocs
  let body := space :: (attributes ++ content)
  let isEmpty := statements.isEmpty && attributes.isEmpty
  word "\x7b" ++ (if isEmpty then [] else shiftLast (-step) body) ++ word "\x7d"

def letDocs (p : Phrase) : List Doc :=
  let shape := (beforeMark ';' (ownParts p)).filter (!Phrase.is .initializer ·)
  let start := word "let " ++ (rolesOf (beforeMark ':' shape)).flatMap lay ++
    (rolesOf (afterMark ':' shape)).flatMap fun t => word ": " ++ lay t
  match (p.child? .initializer).map fun i => rolesOf i.parts with
  | some [value] => ibox 0 (start ++ word " = " ++ [neverBreak] ++ lay value ++ word ";")
  | some (value :: other :: _) =>
    ibox 0 (start ++ word " = " ++ [neverBreak] ++ lay value ++ [space] ++ word "else ") ++
      [neverBreak] ++ cbox step (lay other) ++ word ";"
  | _ => ibox 0 (start ++ word ";")

def statementDocs (p : Phrase) : List Doc :=
  let attributes := outerAttributeDocs lay p
  let ended := p.hasMark ';'
  match p.kind? with
  | some .letStatement => attributes ++ letDocs lay p ++ [lineEnd]
  | some .expressionStatement =>
    let e? := statementExpr? p
    let semicolon := if ended then !e?.any losesSemicolon else e?.any gainsSemicolon
    ibox 0 (e?.elim [] (lineDocs lay) ++ if semicolon then word ";" else []) ++ [lineEnd]
  | some .macroStatement =>
    attributes ++ (rolesOf (ownParts p)).flatMap lay ++ (if ended then word ";" else []) ++
      [lineEnd]
  | some .itemStatement => (rolesOf (ownParts p)).flatMap lay
  | _ => []

def blockAfter (words : String) (p : Phrase) : List Doc :=
  word words ++ cbox step ((p.children .block).flatMap (smallBlock lay (statementDocs lay)))

def labelText (p : Phrase) : String :=
  match ownParts p with
  | .token (.lifetime t _) :: _ => t ++ ": "
  | _ => ""

/-- Whether an expression is a number without a fraction, a character or a truth value. -/
def isSimpleLiteral (p : Phrase) : Bool :=
  p.is .literalExpr && match Phrase.tokensList (ownParts p) with
    | [.name _ _] => true
    | [.literal number _] =>
      match number.toList with
      | '\'' :: _ => true
      | 'b' :: '\'' :: _ => true
      | c :: _ => c.isDigit && !Literal.isFraction number
      | [] => false
    | _ => false

/-- A range: its dots are kept apart from those that its upper end starts with. -/
def rangeDocs (parts : List Phrase) : List Doc :=
  let dots := operatorText parts
  let lower := rolesOf (beforeMark '.' parts)
  let upper := rolesOf (afterMark '.' parts)
  let gap := if dots = ".." && upper.any startsWithDots then " " else ""
  lower.flatMap lay ++ word (dots ++ gap) ++ upper.flatMap lay
where
  /-- Whether an expression is a range without a lower end. -/
  startsWithDots (p : Phrase) : Bool :=
    p.is .rangeExpr && p.parts.head?.any (Phrase.isMark '.')

/-- The elements of an array; simple literals are set in lines. -/
def arrayDocs (es : List Phrase) : List Doc :=
  let simple := es.all isSimpleLiteral
  let docs := es.map lay
  match docs with
  | [] => word "[]"
  | first :: rest =>
    if simple then
      cbox step (word "[" ++ [zeroBreak] ++
        ibox 0 (first ++ rest.flatMap fun d => [.text ",", space] ++ d) ++
        shiftLast (-step) [commaEnd 0] ++ word "]")
    else word "[" ++ cbox step (listBody docs) ++ word "]"

def plainExprDocs? (k : Kind) (p : Phrase) : Option (List Doc) :=
  let parts := ownParts p
  let roles := rolesOf parts
  match k with
  | .literalExpr => some (word (closeText (.node .literalExpr parts)))
  | .pathExpr => some (innerPathDocs lay .expr p)
  | .macroExpr => some (macroCallDocs lay p)
  | .unaryExpr => some (word (operatorText parts) ++ roles.flatMap lay)
  | .referenceExpr => some (word "&" ++ keyword? "mut" p ++ roles.flatMap lay)
  | .addressExpr =>
    some (word "&raw " ++ keyword? "mut" p ++ keyword? "const" p ++ roles.flatMap lay)
  | .binaryExpr => some (binaryDocs lay p)
  | .comparisonExpr => some (binaryDocs lay p)
  | .compoundAssignExpr => some (binaryDocs lay p)
  | .assignExpr =>
    some (ibox 0 ((roles.take 1).flatMap lay ++ word " = " ++ [neverBreak] ++
      (roles.drop 1).flatMap lay))
  | .castExpr =>
    some (ibox step (ibox (-step) ((roles.take 1).flatMap lay) ++ [space] ++ word "as " ++
      (roles.drop 1).flatMap lay))
  | .rangeExpr => some (rangeDocs lay parts)
  | .parenExpr => some (word "(" ++ (argumentsOf p).flatMap lay ++ word ")")
  | .tupleExpr => some (tupleDocs ((argumentsOf p).map lay))
  | .arrayExpr => some (arrayDocs lay (elements ((p.groupParts? .bracket).getD [])))
  | .repeatExpr =>
    let inside := (p.groupParts? .bracket).getD []
    some (word "[" ++ joined "; " ((rolesOf inside).map lay) ++ word "]")
  | .blockExpr => some (blockAfter lay (labelText p) p)
  | .unsafeExpr => some (blockAfter lay "unsafe " p)
  | .constExpr => some (blockAfter lay "const " p)
  | .asyncExpr => some (blockAfter lay (if p.hasWord "move" then "async move " else "async ") p)
  | .inferredExpr => some (word "_")
  | .block => some (smallBlock lay (statementDocs lay) p)
  | _ => if isSelection p || isTrailer p then some (chainDocs lay false p.depth p) else none

def exprDocs? (k : Kind) (p : Phrase) : Option (List Doc) :=
  (plainExprDocs? lay k p).map (outerAttributeDocs lay p ++ ·)

end FormulaBinding.Layout
