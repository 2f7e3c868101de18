import FormulaBinding.Layout.Expression

/-! # Layout of control flow, closures and records -/
namespace FormulaBinding.Layout
open Doc
open Phrase (ownParts rolesOf afterMark beforeMark)

variable (lay : Phrase → List Doc)

/-- Whether an expression, when it is broken over lines, ends on an indented line, so that the brace
after it starts a new one. -/
def endsIndented : Nat → Phrase → Bool
  | 0, _ => false
  | n + 1, p =>
    let roles := rolesOf (ownParts p)
    match p.kind? with
    | some .callExpr => endsIndented n (operandOf p)
    | some .tryExpr => endsIndented n (operandOf p)
    | some .parenExpr => (argumentsOf p).any (endsIndented n)
    | some .letExpr => roles.getLast?.any (endsIndented n)
    | some .rangeExpr => (rolesOf (afterMark '.' p.parts)).any (endsIndented n)
    | some k =>
      [Kind.assignExpr, .awaitExpr, .binaryExpr, .comparisonExpr, .compoundAssignExpr, .castExpr,
          .fieldExpr, .indexExpr, .methodExpr].contains k ||
        ([Kind.unaryExpr, .referenceExpr, .addressExpr, .breakExpr, .returnExpr,
          .yieldExpr].contains k && roles.getLast?.any (endsIndented n))
    | none => false

def subjectDocs (e : Phrase) : List Doc :=
  cbox 0 (lay e ++ if endsIndented e.depth e then [space] else word " ")

/-- The statements of a block on lines of their own, and the end of the block. -/
def statementLines (p : Phrase) : List Doc :=
  let inside := (p.groupParts? .brace).getD []
  let statements := (rolesOf inside).filter (!Phrase.is .innerAttribute ·)
  cbox step (shiftLast (-step) (lineEndIfMore ::
    (innerAttributeDocs lay inside ++ statements.flatMap (statementDocs lay)))) ++ word "\x7d"

/-- A block whose statements always stand on lines of their own. -/
def wideBlock (p : Phrase) : List Doc := word "\x7b" ++ [neverBreak] ++ statementLines lay p

/-- A loop with its label: the words, what stands between them, and the body. -/
def loopDocs (p : Phrase) : List Doc :=
  let label := word (labelText p)
  match p.kind?, rolesOf (ownParts p) with
  | some .whileExpr, [condition, body] =>
    label ++ word "while " ++ subjectDocs lay condition ++ wideBlock lay body
  | some .forExpr, [pattern, subject, body] =>
    ibox 0 (label ++ word "for " ++ lay pattern ++ word " in " ++ [neverBreak] ++
      subjectDocs lay subject ++ wideBlock lay body)
  | _, roles => label ++ word "loop \x7b" ++ roles.flatMap (statementLines lay)

def guardedDocs (condition : Phrase) (block : List Doc) : List Doc :=
  word "if " ++ cbox (-step) (subjectDocs lay condition) ++ block

def alternativeBlocks : List Phrase → List Doc
  | condition :: block :: rest =>
    guardedDocs lay condition (lay block) ++
      (if rest.isEmpty then [] else word " else ") ++ alternativeBlocks rest
  | [other] => (other.children .block).flatMap lay
  | [] => []

/-- An `if`: the block of one without alternatives never stands on one line. -/
def ifDocs (p : Phrase) : List Doc :=
  cbox step <|
    match rolesOf (ownParts p) with
    | [condition, block] =>
      let statements := rolesOf ((block.groupParts? .brace).getD [])
      guardedDocs lay condition <|
        if statements.isEmpty then word "\x7b\x7d"
        else
          word "\x7b" ++ shiftLast (-step) (lineEnd :: statements.flatMap (statementDocs lay)) ++
            word "\x7d"
    | roles => alternativeBlocks lay roles

/-- The body of an arm without braces around a single expression. -/
def bareBody : Nat → Phrase → Phrase
  | 0, p => p
  | n + 1, p =>
    if p.is .blockExpr && labelText p = "" && (p.children .outerAttribute).isEmpty then
      match ((p.child? .block).bind (Phrase.groupParts? .brace)).getD [] with
      | [s] =>
        if s.is .expressionStatement && !s.hasMark ';' then
          (statementExpr? s).elim p (bareBody n)
        else p
      | _ => p
    else p

def needsComma (p : Phrase) : Bool :=
  !p.kind?.any [Kind.ifExpr, .matchExpr, .blockExpr, .unsafeExpr, .whileExpr, .loopExpr, .forExpr,
    .tryBlockExpr, .constExpr].contains

/-- Whether an expression is still one if it is read as a statement: a statement ends behind a block
unless a selection or a question mark follows it. -/
def isStatementLike : Nat → Phrase → Bool
  | 0, _ => true
  | n + 1, p =>
    let continues := isSelection p || p.is .tryExpr
    let operates := p.kind?.any [Kind.assignExpr, .binaryExpr, .comparisonExpr, .compoundAssignExpr,
      .callExpr, .castExpr, .indexExpr].contains || (p.is .rangeExpr &&
        !(rolesOf (beforeMark '.' (ownParts p))).isEmpty)
    if continues || operates then
      let left := operandOf p
      (continues || needsSemicolon left) && isStatementLike n left
    else true
where
  /-- Whether a statement that is this expression ends with a semicolon. -/
  needsSemicolon (p : Phrase) : Bool :=
    if p.is .macroExpr then !endsInBraces p else needsComma p
  /-- Whether a macro call has braces. -/
  endsInBraces (p : Phrase) : Bool :=
    match p.tokens.getLast? with
    | some (.group .brace _ _ _) => true
    | _ => false

/-- An expression that is put into braces if it stands on a line of its own, or into parentheses
where braces would change what it means. `close` is written behind the parentheses, and `unbroken`
behind an expression that stays on the line. -/
def bracedIfBroken (close unbroken : String) (body : Phrase) (docs : List Doc) : List Doc :=
  let braces := isStatementLike body.depth body
  let first := Doc.brk { before := if braces then "\x7b" else "(" }
  let last := Doc.brk {
    shift := -step
    before := if braces && gainsSemicolon body then ";" else ""
    after := if braces then "\x7d" else ")" ++ close
    unbroken }
  cbox step (first :: (docs ++ [last]))

/-- The body of an arm: braces are added around an expression that stands on a line of its own. -/
def armBody (body : Phrase) : List Doc :=
  let isUnit := body.is .tupleExpr && (argumentsOf body).isEmpty &&
    (body.children .outerAttribute).isEmpty
  if isUnit then word "\x7b" ++ [neverBreak] ++ word "\x7d"
  else if body.is .blockExpr then
    word (labelText body) ++ (body.children .block).flatMap (wideBlock lay)
  else
    let comma := if needsComma body then "," else ""
    [neverBreak] ++ bracedIfBroken "," comma body (lineDocs lay body)

def armDocs (p : Phrase) : List Doc :=
  let docs := match rolesOf (ownParts p) with
    | [pattern, body] => lay pattern ++ word " => " ++ armBody lay (bareBody body.depth body)
    | [pattern, condition, body] =>
      lay pattern ++ word " if " ++ lay condition ++ word " => " ++
        armBody lay (bareBody body.depth body)
    | _ => []
  outerAttributeDocs lay p ++ ibox 0 docs ++ [lineEnd]

def matchDocs (p : Phrase) : List Doc :=
  let inside := (p.groupParts? .brace).getD []
  let arms := inside.filter (Phrase.is .arm)
  ibox 0 (word "match " ++ (rolesOf (ownParts p)).flatMap (subjectDocs lay) ++ word "\x7b" ++
    [neverBreak] ++
    cbox step (shiftLast (-step) (lineEndIfMore ::
      (innerAttributeDocs lay inside ++ arms.flatMap (armDocs lay)))) ++ word "\x7d")

def closureParameterDocs (p : Phrase) : List Doc :=
  let parts := ownParts p
  outerAttributeDocs lay p ++ (rolesOf (beforeMark ':' parts)).flatMap lay ++
    (rolesOf (afterMark ':' parts)).flatMap fun t => word ": " ++ lay t

/-- The body of a closure that has no result type: braces are added if it stands on a line of its
own. -/
def closureBody (body : Phrase) : List Doc :=
  let plain := (body.children .outerAttribute).isEmpty
  let whole := isBlockLike body || (plain && (body.is .matchExpr || body.is .callExpr))
  if whole then lay body
  else bracedIfBroken "" "" body (lay body)

def closureDocs (p : Phrase) : List Doc :=
  let roles := rolesOf (ownParts p)
  let inputs := (roles.filter (Phrase.is .parameter)).map (closureParameterDocs lay)
  let bodies := (roles.filter fun q =>
    !q.is .parameter && !q.is .returnType && !q.is .forLifetimes).flatMap
  let start := (p.children .forLifetimes).flatMap (forLifetimesDocs lay) ++
    keyword? "const" p ++ keyword? "static" p ++ keyword? "async" p ++ keyword? "move" p
  let gap := if inputs.isEmpty then [] else [zeroBreak]
  ibox 0 <| start ++
    if (p.child? .returnType).isSome then
      let list :=
        if inputs.isEmpty then [] else shiftLast (-step) (gap ++ commas (commaEnd 0) inputs)
      cbox step (word "|" ++ list ++ word "|") ++ returnDocs lay p ++ word " " ++ [neverBreak] ++
        bodies lay
    else
      cbox step (word "|" ++ gap ++ separated inputs ++ word "|" ++ shiftLast (-step) [space]) ++
        [neverBreak] ++ bodies (closureBody lay)
where
  /-- Parameters with commas between them. -/
  separated : List (List Doc) → List Doc
    | [] => []
    | [d] => d
    | d :: ds => d ++ [.text ",", space] ++ separated ds

def recordLimit : Nat := 34

def fieldValueDocs (p : Phrase) : List Doc :=
  let parts := ownParts p
  let member := String.join ((beforeMark ':' parts).map closeText)
  let value := rolesOf (afterMark ':' parts)
  outerAttributeDocs lay p ++ word member ++
    if value.isEmpty then [] else word ": " ++ ibox 0 (value.flatMap lay)

/-- A record: dots without a value behind them are dropped. -/
def recordDocs (p : Phrase) : List Doc :=
  let inside := (p.groupParts? .brace).getD []
  let fields := (inside.filter (Phrase.is .fieldValue)).map (fieldValueDocs lay)
  let others := (rolesOf inside).filter (!Phrase.is .fieldValue ·)
  let rest := if others.isEmpty then [] else [rangeDocs lay (dots ++ others)]
  cboxAtMost recordLimit step
    (innerPathDocs lay .expr p ++ word " \x7b" ++ braceBody fields rest) ++ word "\x7d"
where
  /-- The dots in front of the record that the other fields come from. -/
  dots : List Phrase := List.replicate 2 (.token (.mark '.' false Extent.nowhere))

def jumpDocs (w : String) (p : Phrase) : List Doc :=
  let label := (ownParts p).filterMap fun
    | .token (.lifetime t _) => some t
    | _ => none
  word (String.intercalate " " (w :: label)) ++
    (rolesOf (ownParts p)).flatMap fun e => word " " ++ lay e

/-- An expression that directs the flow of control, a closure or a record. -/
def controlDocs? (k : Kind) (p : Phrase) : Option (List Doc) :=
  let docs? := match k with
    | .ifExpr => some (ifDocs lay p)
    | .whileExpr => some (loopDocs lay p)
    | .forExpr => some (loopDocs lay p)
    | .loopExpr => some (loopDocs lay p)
    | .matchExpr => some (matchDocs lay p)
    | .closureExpr => some (closureDocs lay p)
    | .recordExpr => some (recordDocs lay p)
    | .tryBlockExpr => some (blockAfter lay "try " p)
    | .breakExpr => some (jumpDocs lay "break" p)
    | .continueExpr => some (jumpDocs lay "continue" p)
    | .returnExpr => some (jumpDocs lay "return" p)
    | .yieldExpr => some (jumpDocs lay "yield" p)
    | .becomeExpr => some (jumpDocs lay "become" p)
    | .letExpr =>
      match rolesOf (ownParts p) with
      | [pattern, value] =>
        some (word "let " ++ lay pattern ++ word " = " ++ [neverBreak] ++ lay value)
      | _ => none
    | _ => none
  docs?.map (outerAttributeDocs lay p ++ ·)

end FormulaBinding.Layout
