import FormulaBinding.Grammar.Expression

/-! # Statements -/
namespace FormulaBinding.Grammar
open FormulaBinding.Parser

variable (read : Reader)

/-- Whether a declaration is ahead; an expression may start with the same keywords. -/
def itemAhead (ts : List Token) : Bool :=
  let second := ts.drop 1
  let third := ts.drop 2
  Ahead.oneOf ["pub", "extern", "use", "fn", "mod", "type", "struct", "enum", "trait", "impl",
      "macro"] ts ||
    (Ahead.word "crate" ts && !Ahead.mark "::" second) ||
    (Ahead.word "static" ts &&
      (Ahead.word "mut" second ||
        (Ahead.name second &&
          !(Ahead.word "async" second && (Ahead.word "move" third || Ahead.mark "|" third))))) ||
    (Ahead.word "const" ts &&
      !(Ahead.group .brace second || Ahead.word "static" second ||
        (Ahead.word "async" second && !Ahead.oneOf ["unsafe", "extern", "fn"] third) ||
        Ahead.word "move" second || Ahead.mark "|" second)) ||
    (Ahead.word "unsafe" ts && !Ahead.group .brace second) ||
    (Ahead.word "async" ts && Ahead.oneOf ["unsafe", "extern", "fn"] second) ||
    (Ahead.word "union" ts && Ahead.name second) ||
    (Ahead.word "auto" ts && Ahead.word "trait" second) ||
    (Ahead.word "default" ts && Ahead.oneOf ["unsafe", "impl"] second)

/-- What a macro call at the start of a statement is: a declaration, a statement, or neither. -/
inductive MacroUse where
  | item
  | statement
  | neither
  deriving DecidableEq

/-- Looks at a macro call at the start of a statement. -/
def macroUse : Parser MacroUse := do
  let found ← attempt do
    foresee do
      discard (collect simplePath)
      ahead
  match found with
  | none => return .neither
  | some ts =>
    let second := ts.drop 1
    let third := ts.drop 2
    if !Ahead.mark "!" ts then return .neither
    else if Ahead.name second || Ahead.word "try" second then return .item
    else if Ahead.group .brace second &&
        !((Ahead.mark "." third && !Ahead.mark ".." third) || Ahead.mark "?" third) then
      return .statement
    else return .neither

/-- Whether the last token of a row is a group in braces. -/
def endsWithBrace (parts : List Phrase) : Bool :=
  match (Phrase.tokensList parts).getLast? with
  | some (.group .brace _ _ _) => true
  | _ => false

def letStatement (attributes : List Phrase) : Parser Unit := node .letStatement do
  for a in attributes do emit a
  word "let"
  read .pattern
  if ← mark? ":" then read (.type true)
  if ← peek (Ahead.mark "=") then
    node .initializer do
      mark "="
      let (_, parts) ← collect (read (.expr true))
      for p in parts do emit p
      if !endsWithBrace parts && (← peek (Ahead.word "else")) then
        word "else"
        block read
  mark ";"

def hasBraces (p : Phrase) : Bool := endsWithBrace [p]

/-- An expression with attributes in front of it: they belong to its leftmost operand. -/
def withAttributes (attributes : List Phrase) : Phrase → Phrase
  | .node k (left :: rest) =>
    if [Kind.assignExpr, .binaryExpr, .comparisonExpr, .compoundAssignExpr, .castExpr].contains k
      then .node k (withAttributes attributes left :: rest)
      else .node k (attributes ++ left :: rest)
  | p => p

/-- Reads an expression as a statement, and says whether something has to separate it from the
next one. -/
def expressionStatement (attributes : List Phrase) : Parser Bool := do
  let (_, parts) ← collect (read .early)
  let isMacro := parts.any (Phrase.is .macroExpr)
  let kindEnds := parts.any fun p => p.kind?.any blockKinds.contains
  let braces := isMacro && endsWithBrace parts
  let ended ← peek (Ahead.mark ";")
  if isMacro && (ended || braces) then
    node .macroStatement do
      for p in attributes ++ parts do emit p
      if ended then mark ";"
  else
    node .expressionStatement do
      for p in parts do emit (withAttributes attributes p)
      if ended then mark ";"
  return !ended && !kindEnds && !braces

/-- Reads a statement, and says whether something has to separate it from the next one. -/
def statement : Parser Bool := do
  let before ← get
  let (_, attributes) ← collect (outerAttributes read)
  let use ← macroUse
  let start ← ahead
  if use == .statement then
    node .macroStatement do
      for a in attributes do emit a
      node .macroExpr do
        simplePath
        discard macroCall
      discard (mark? ";")
    return false
  else if Ahead.word "let" start then
    letStatement read attributes
    return false
  else if use == .item || itemAhead start then
    set before
    node .itemStatement (read .item)
    return false
  else expressionStatement read attributes

def statements : Parser Unit :=
  repeatWhile do
    repeatWhile do
      if ← peek (Ahead.mark ";") then
        node .emptyStatement (mark ";")
        return true
      else return false
    if ← atEnd then return false
    let separate ← statement read
    if ← atEnd then return false
    if separate then fail (.refused "unexpected token, expected `;`")
    return true

end FormulaBinding.Grammar
