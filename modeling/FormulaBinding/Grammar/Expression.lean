import FormulaBinding.Grammar.Pattern

/-! # Expressions -/
namespace FormulaBinding.Grammar
open FormulaBinding.Parser

variable (read : Reader)

/-- An operator between two expressions, how tightly it binds, and what it makes of them. -/
structure BinaryOperator where
  text : String
  precedence : Precedence
  kind : Kind

/-- The operators between two expressions, longer ones before their beginnings. -/
def binaryOperators : List BinaryOperator :=
  (["+=", "-=", "*=", "/=", "%=", "^=", "&=", "|=", "<<=", ">>="].map
      (⟨·, .assign, .compoundAssignExpr⟩)) ++
    [⟨"&&", .and, .binaryExpr⟩, ⟨"||", .or, .binaryExpr⟩, ⟨"<<", .shift, .binaryExpr⟩,
      ⟨">>", .shift, .binaryExpr⟩, ⟨"==", .compare, .comparisonExpr⟩,
      ⟨"<=", .compare, .comparisonExpr⟩, ⟨"!=", .compare, .comparisonExpr⟩,
      ⟨">=", .compare, .comparisonExpr⟩, ⟨"+", .sum, .binaryExpr⟩, ⟨"-", .sum, .binaryExpr⟩,
      ⟨"*", .product, .binaryExpr⟩, ⟨"/", .product, .binaryExpr⟩, ⟨"%", .product, .binaryExpr⟩,
      ⟨"^", .bitXor, .binaryExpr⟩, ⟨"&", .bitAnd, .binaryExpr⟩, ⟨"|", .bitOr, .binaryExpr⟩,
      ⟨"<", .compare, .comparisonExpr⟩, ⟨">", .compare, .comparisonExpr⟩]

def binaryOperator? (ts : List Token) : Option BinaryOperator :=
  binaryOperators.find? fun o => Ahead.mark o.text ts

def assignAhead (ts : List Token) : Bool := Ahead.mark "=" ts && !Ahead.mark "=>" ts

/-- How tightly the operator ahead binds, if there is one. -/
def precedenceAhead (ts : List Token) : Precedence :=
  match binaryOperator? ts with
  | some o => o.precedence
  | none =>
    if assignAhead ts then .assign
    else if Ahead.mark ".." ts then .range
    else if Ahead.word "as" ts then .cast
    else .jump

/-- Reads the operand after an operator, with the tighter operators that follow it. -/
def rightOperand (braces : Bool) (p : Precedence) : Parser Unit := do
  read (.unary braces)
  repeatWhile do
    let next := precedenceAhead (← ahead)
    if p.rank < next.rank || (next == p && p == .assign) then
      let before := (← ahead).length
      read (.operators braces next)
      return (← ahead).length != before
    else return false

/-- Whether a range ends here without an upper end. -/
def rangeEndsAhead (braces : Bool) (ts : List Token) : Bool :=
  ts.isEmpty || (Ahead.mark "." ts && !Ahead.mark ".." ts) ||
    (!braces && Ahead.group .brace ts) || Ahead.word "as" ts ||
    [",", ";", "?", "=>", "=", "+", "/", "%", "^", ">", "<=", "!=", "-=", "*=", "&=", "|=",
      "<<="].any (Ahead.mark · ts)

/-- Reads the dots of a range and its upper end, if it has one. -/
def rangeRest (braces : Bool) : Parser Unit := do
  if ← peek (Ahead.mark "...") then expected ["`..`", "`..=`"]
  let closed ← mark? "..="
  if !closed then mark ".."
  if closed || !(← peek (rangeEndsAhead braces)) then rightOperand read braces .range

/-- Fails where something that binds to the type of a cast follows it. -/
def checkCast : Parser Unit := do
  let ts ← ahead
  let kind? :=
    if Ahead.mark "." ts && !Ahead.mark ".." ts then
      if Ahead.word "await" (ts.drop 1) then some "`.await`"
      else if Ahead.name (ts.drop 1) &&
          (Ahead.group .parenthesis (ts.drop 2) || Ahead.mark "::" (ts.drop 2)) then
        some "a method call"
      else some "a field access"
    else if Ahead.mark "?" ts then some "`?`"
    else if Ahead.group .bracket ts then some "indexing"
    else if Ahead.group .parenthesis ts then some "a function call"
    else none
  match kind? with
  | some kind => fail (.refused ("casts cannot be followed by " ++ kind))
  | none => pure ()

/-- Reads one operator after the last phrase, with its right operand, if it binds at least as
tightly as the base. -/
def operatorStep (braces : Bool) (base : Precedence) : Parser Bool := do
  if (← lastKind?) == some .rangeExpr then return false
  let ts ← ahead
  match binaryOperator? ts with
  | some o =>
    if o.precedence.rank < base.rank then return false
    if o.kind == .comparisonExpr && (← lastKind?) == some .comparisonExpr then
      fail (.refused "comparison operators cannot be chained")
    extend o.kind do
      mark o.text
      rightOperand read braces o.precedence
    return true
  | none =>
    if base.rank ≤ Precedence.assign.rank && assignAhead ts then
      extend .assignExpr do
        mark "="
        rightOperand read braces .assign
      return true
    else if base.rank ≤ Precedence.range.rank && Ahead.mark ".." ts then
      extend .rangeExpr (rangeRest read braces)
      return true
    else if base.rank ≤ Precedence.cast.rank && Ahead.word "as" ts then
      extend .castExpr do
        word "as"
        read (.type false)
        checkCast
      return true
    else return false

def operators (braces : Bool) (base : Precedence) : Parser Unit :=
  repeatWhile (operatorStep read braces base)

def expr (braces : Bool) : Parser Unit := do
  read (.unary braces)
  operators read braces .jump

def arguments : Parser Unit := parens (separated "," (read (.expr true)))

/-- The positions that a number with points in it selects, one after the other. -/
def fieldNumbers (text : String) : List String :=
  (text.splitOn ".").filter (· ≠ "")

/-- Reads a number with points in it after a dot, as several selections in a row. -/
def selectNumbers (text : String) (place : Extent) : Parser Unit := do
  let positions ← (fieldNumbers text).mapM (fieldPosition · place)
  dropMark "."
  skip
  for position in positions do
    extend .fieldExpr do
      emit (.token (.mark '.' false place))
      emit (.token position)

/-- Reads a name or a number after a dot, and a call if one follows. -/
def selectMember (dot : Parser Unit) : Parser Unit := do
  if ← peek (Ahead.word "await") then
    extend .awaitExpr do
      dot
      word "await"
  else if ← peek Ahead.name then
    let calls (ts : List Token) : Bool := Ahead.mark "::" ts || Ahead.group .parenthesis ts
    if ← peek2 calls then
      extend .methodExpr do
        dot
        name
        if ← peek (Ahead.mark "::") then genericArguments read
        arguments read
    else
      extend .fieldExpr do
        dot
        name
  else if ← peek (Ahead.number false) then
    extend .fieldExpr do
      dot
      fieldNumber
  else fail (.refused "expected identifier or integer")

def selection : Parser Unit := do
  match (← ahead).drop 1 with
  | .literal text p :: _ =>
    if ← peek2 (Ahead.number true) then
      selectNumbers text p
      if text.endsWith "." then selectMember read (emit (.token (.mark '.' false p)))
    else selectAfterDot
  | .mark '-' _ sign :: .literal text p :: _ =>
    if ← peek2 (Ahead.number true) then selectNumbers ("-" ++ text) (sign.join p)
    else selectAfterDot
  | _ => selectAfterDot
where
  /-- Reads the dot and the member after it. -/
  selectAfterDot : Parser Unit := do
    let dot := (← ahead).take 1
    skip
    selectMember read (for t in dot do emit (.token (plain t)))
  /-- A mark that is joined to nothing. -/
  plain : Token → Token
    | .mark c _ p => .mark c false p
    | t => t

/-- Reads calls, selections, indices and question marks after the last phrase. -/
def trailers : Parser Unit :=
  repeatWhile do
    let ranged := (← lastKind?) == some .rangeExpr
    if ← peek (Ahead.group .parenthesis) then
      extend .callExpr (arguments read)
      return true
    else if !ranged && (← peek (Ahead.mark ".")) && !(← peek (Ahead.mark "..")) then
      selection read
      return true
    else if ← peek (Ahead.group .bracket) then
      extend .indexExpr do brackets (read (.expr true))
      return true
    else if !ranged && (← peek (Ahead.mark "?")) then
      extend .tryExpr (mark "?")
      return true
    else return false

/-- Reads the condition or the subject of a control expression. -/
def subject : Parser Unit := read (.expr false)

def ifExpr : Parser Unit := node .ifExpr do
  repeatWhile do
    word "if"
    subject read
    block read
    if !(← word? "else") then return false
    if ← peek (Ahead.word "if") then return true
    if ← peek (Ahead.group .brace) then node .blockExpr (block read)
    else expected ["`if`", "curly braces"]
    return false

def matchArm : Parser Unit := node .arm do
  outerAttributes read
  alternatives read
  if ← word? "if" then read (.expr true)
  mark "=>"
  read .early
  let blockLike := [Kind.ifExpr, .matchExpr, .blockExpr, .unsafeExpr, .whileExpr, .loopExpr,
    .forExpr, .tryBlockExpr, .constExpr]
  let needsComma := !((← lastKind?).any blockLike.contains)
  if needsComma && !(← atEnd) then mark "," else discard (mark? ",")

def matchExpr : Parser Unit := node .matchExpr do
  word "match"
  subject read
  braces do
    innerAttributes read
    untilEnd (matchArm read)

def loopOrBlock? : Parser Bool := do
  if ← peek (Ahead.word "while") then
    node .whileExpr do
      word "while"
      subject read
      attributedBlock read
    return true
  else if ← peek (Ahead.word "for") then
    node .forExpr do
      word "for"
      alternatives read
      word "in"
      subject read
      attributedBlock read
    return true
  else if ← peek (Ahead.word "loop") then
    node .loopExpr do
      word "loop"
      attributedBlock read
    return true
  else if ← peek (Ahead.group .brace) then
    node .blockExpr (attributedBlock read)
    return true
  else return false

def labeled : Parser Unit := do
  let (_, label) ← collect do
    lifetime
    mark ":"
  if ← loopOrBlock? read then prepend label
  else fail (.refused "expected loop or block expression")

def keywordBlock (k : Kind) (words : List String) : Parser Unit := node k do
  for w in words do word w
  attributedBlock read

def closureAhead (ts : List Token) : Bool :=
  let second := ts.drop 1
  Ahead.mark "|" ts || Ahead.word "move" ts || (Ahead.word "for" ts && genericsAhead second) ||
    (Ahead.word "const" ts && !Ahead.group .brace second) || Ahead.word "static" ts ||
    (Ahead.word "async" ts && (Ahead.mark "|" second || Ahead.word "move" second))

def closure (braces : Bool) : Parser Unit := node .closureExpr do
  discard (forLifetimes read)
  for w in ["const", "static", "async", "move"] do discard (word? w)
  mark "|"
  repeatWhile do
    if ← peek (Ahead.mark "|") then return false
    node .parameter do
      outerAttributes read
      read .pattern
      if ← mark? ":" then read (.type true)
    if ← peek (Ahead.mark "|") then return false
    mark ","
    return true
  mark "|"
  if ← peek (Ahead.mark "->") then
    node .returnType do
      mark "->"
      read (.type true)
    node .blockExpr (block read)
  else read (.expr braces)

def exprAhead (ts : List Token) : Bool :=
  (Ahead.anyName ts && !Ahead.word "as" ts) || Ahead.group .parenthesis ts ||
    Ahead.group .bracket ts || Ahead.group .brace ts || Ahead.literal ts || Ahead.lifetime ts ||
    Ahead.mark "::" ts || Ahead.mark ".." ts || Ahead.mark "#" ts ||
    (Ahead.mark "!" ts && !Ahead.mark "!=" ts) ||
    (Ahead.mark "-" ts && !Ahead.mark "-=" ts && !Ahead.mark "->" ts) ||
    (Ahead.mark "*" ts && !Ahead.mark "*=" ts) || (Ahead.mark "|" ts && !Ahead.mark "|=" ts) ||
    (Ahead.mark "&" ts && !Ahead.mark "&=" ts) ||
    (Ahead.mark "<" ts && !Ahead.mark "<=" ts && !Ahead.mark "<<=" ts)

def jumpExpr (k : Kind) (w : String) : Parser Unit := node k do
  word w
  if ← peek exprAhead then read (.expr true)

def breakExpr (braces : Bool) : Parser Unit := node .breakExpr do
  word "break"
  if ← peek Ahead.lifetime then
    if ← peek2 (Ahead.mark ":") then
      let place := (← get).place
      read (.expr true)
      throw { fault := .refused "parentheses required", place }
    lifetime
  if (← peek exprAhead) && (braces || !(← peek (Ahead.group .brace))) then read (.expr true)

def fieldValue : Parser Unit := node .fieldValue do
  outerAttributes read
  if ← peek (Ahead.number false) then
    fieldNumber
    mark ":"
    read (.expr true)
  else
    if !(← peek Ahead.name) then fail (.refused "expected identifier or integer")
    name
    if ← peek (Ahead.mark ":") then
      mark ":"
      read (.expr true)

def recordFields : Parser Unit :=
  braces do
    repeatWhile do
      if ← atEnd then return false
      if ← mark? ".." then
        if !(← atEnd) then read (.expr true)
        return false
      fieldValue read
      if ← atEnd then return false
      mark ","
      return true

def pathMacroOrRecord (braces : Bool) : Parser Unit := do
  node .pathExpr (anyPath read true)
  let plain := (← get).row.head?.any fun p => p.parts.all isPlainPath
  if plain && (← peek (Ahead.mark "!")) && !(← peek (Ahead.mark "!=")) then
    extendParts .macroExpr (discard macroCall)
  else if braces && (← peek (Ahead.group .brace)) then
    extendParts .recordExpr (recordFields read)
where
  /-- Makes a phrase of the parts of the last phrase and what a parser reads after them. -/
  extendParts (k : Kind) (p : Parser Unit) : Parser Unit := do
    match (← get).row with
    | last :: before =>
      modify fun c => { c with row := before }
      node k do
        for part in last.parts do emit part
        p
    | [] => node k p

def parenOrTuple : Parser Unit := do
  let (isTuple, parts) ← collect do
    parens do
      if ← atEnd then return true
      read (.expr true)
      if ← atEnd then return false
      mark ","
      separated "," (read (.expr true))
      return true
  emit (.node (if isTuple then .tupleExpr else .parenExpr) parts)

def arrayOrRepeat : Parser Unit := do
  let (repeats, parts) ← collect do
    brackets do
      if ← atEnd then return false
      read (.expr true)
      if ← atEnd then return false
      if ← mark? "," then
        separated "," (read (.expr true))
        return false
      else if ← mark? ";" then
        read (.expr true)
        return true
      else fail (.refused "expected `,` or `;`")
  emit (.node (if repeats then .repeatExpr else .arrayExpr) parts)

def pathOperandAhead (ts : List Token) : Bool :=
  Ahead.name ts || Ahead.mark "::" ts || Ahead.mark "<" ts ||
    Ahead.oneOf ["self", "Self", "super", "crate"] ts ||
    (Ahead.word "try" ts && (Ahead.mark "!" (ts.drop 1) || Ahead.mark "::" (ts.drop 1)))

def operand (braces : Bool) : Parser Unit := do
  let ts ← ahead
  let second := ts.drop 1
  if Ahead.literal ts then node .literalExpr literal
  else if Ahead.word "async" ts &&
      (Ahead.group .brace second ||
        (Ahead.word "move" second && Ahead.group .brace (ts.drop 2))) then
    node .asyncExpr do
      word "async"
      discard (word? "move")
      block read
  else if Ahead.word "try" ts && Ahead.group .brace second then
    node .tryBlockExpr do
      word "try"
      block read
  else if closureAhead ts then closure read braces
  else if builtinAhead ts then builtin .builtinExpr
  else if pathOperandAhead ts then pathMacroOrRecord read braces
  else if Ahead.group .parenthesis ts then parenOrTuple read
  else if Ahead.word "break" ts then breakExpr read braces
  else if Ahead.word "continue" ts then
    node .continueExpr do
      word "continue"
      discard lifetime?
  else if Ahead.word "return" ts then jumpExpr read .returnExpr "return"
  else if Ahead.word "become" ts then
    verbatim .becomeExpr do
      word "become"
      read (.expr true)
  else if Ahead.group .bracket ts then arrayOrRepeat read
  else if Ahead.word "let" ts then
    node .letExpr do
      word "let"
      alternatives read
      mark "="
      read (.unary braces)
      operators read braces .compare
  else if Ahead.word "if" ts then ifExpr read
  else if Ahead.word "match" ts then matchExpr read
  else if Ahead.word "yield" ts then jumpExpr read .yieldExpr "yield"
  else if Ahead.word "unsafe" ts then keywordBlock read .unsafeExpr ["unsafe"]
  else if Ahead.word "const" ts then keywordBlock read .constExpr ["const"]
  else if Ahead.mark ".." ts then node .rangeExpr (rangeRest read braces)
  else if Ahead.word "_" ts then node .inferredExpr anyName
  else if Ahead.lifetime ts then labeled read
  else if !(← loopOrBlock? read) then fail (.refused "expected an expression")

def attributedOperand (braces : Bool) (attributes : List Phrase) : Parser Unit := do
  operand read braces
  trailers read
  if !attributes.isEmpty then
    match (← get).row.head? with
    | some (.node .rangeExpr parts) =>
      let dots := parts.findSome? fun
        | .token t => some t.head
        | _ => none
      let rule := "attributes are not allowed on range expressions starting with `..`"
      throw { fault := .refused rule, place := dots }
    | _ => prepend attributes

def unary (braces : Bool) : Parser Unit := do
  let (_, attributes) ← collect (outerAttributes read)
  let emitAttributes : Parser Unit := for a in attributes do emit a
  if ← peek (Ahead.mark "&") then
    let isAddress := (← peek2 (Ahead.word "raw")) && (← peek3 (Ahead.oneOf ["mut", "const"]))
    node (if isAddress then .addressExpr else .referenceExpr) do
      emitAttributes
      mark "&"
      if isAddress then
        word "raw"
        anyName
      else discard (word? "mut")
      read (.unary braces)
  else if (← peek (Ahead.mark "*")) || (← peek (Ahead.mark "!")) || (← peek (Ahead.mark "-")) then
    node .unaryExpr do
      emitAttributes
      takeMarks 1
      read (.unary braces)
  else attributedOperand read braces attributes

/-- The kinds of expressions that end a statement with their block. -/
def blockKinds : List Kind :=
  [.ifExpr, .whileExpr, .forExpr, .loopExpr, .matchExpr, .tryBlockExpr, .unsafeExpr, .constExpr,
    .blockExpr]

/-- Reads an expression that ends early: a block-like expression is not continued by an operator,
only by a dot or a question mark. -/
def early : Parser Unit := do
  let (_, attributes) ← collect (outerAttributes read)
  let ts ← ahead
  let second := ts.drop 1
  if Ahead.word "if" ts then ifExpr read
  else if Ahead.word "match" ts then matchExpr read
  else if Ahead.word "try" ts && Ahead.group .brace second then
    node .tryBlockExpr do
      word "try"
      block read
  else if Ahead.word "unsafe" ts then keywordBlock read .unsafeExpr ["unsafe"]
  else if Ahead.word "const" ts && Ahead.group .brace second then
    keywordBlock read .constExpr ["const"]
  else if Ahead.lifetime ts then labeled read
  else if Ahead.word "while" ts || Ahead.word "loop" ts || Ahead.group .brace ts ||
      (Ahead.word "for" ts && !genericsAhead second) then
    discard (loopOrBlock? read)
  else unary read true
  let endsHere := (← lastKind?).any blockKinds.contains
  let continues := (Ahead.mark "." (← ahead) && !Ahead.mark ".." (← ahead)) ||
    Ahead.mark "?" (← ahead)
  if endsHere && continues then trailers read
  prepend attributes
  if !endsHere || continues then operators read true .jump

end FormulaBinding.Grammar
