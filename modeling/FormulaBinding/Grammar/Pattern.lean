import FormulaBinding.Grammar.Type

/-! # Patterns -/
namespace FormulaBinding.Grammar
open FormulaBinding.Parser

variable (read : Reader)

/-- Whether a single bar is ahead, which separates alternatives. -/
def barAhead (ts : List Token) : Bool :=
  Ahead.mark "|" ts && !Ahead.mark "||" ts && !Ahead.mark "|=" ts

def furtherAlternatives : Parser Unit :=
  repeatWhile do
    if !(← peek barAhead) then return false
    mark "|"
    read .pattern
    return true

/-- Reads a pattern with alternatives; a bar may stand in front of them. -/
def alternatives : Parser Unit := do
  if ← peek (Ahead.mark "|") then
    node .pattern do
      mark "|"
      read .pattern
      furtherAlternatives read
  else
    read .pattern
    if ← peek barAhead then extend .pattern (furtherAlternatives read)

/-- Whether a pattern ends here, so that a range has no upper end. -/
def rangeStops (ts : List Token) : Bool :=
  ts.isEmpty || Ahead.mark "|" ts || Ahead.mark "=" ts ||
    (Ahead.mark ":" ts && !Ahead.mark "::" ts) || Ahead.mark "," ts || Ahead.mark ";" ts ||
    Ahead.word "if" ts

/-- Reads an end of a range pattern, and says whether there is one. -/
def rangeBound : Parser Bool := do
  if ← peek rangeStops then return false
  if ← peek Ahead.literal then node .literalExpr literal
  else if (← peek Ahead.name) || (← peek (Ahead.mark "::")) || (← peek (Ahead.mark "<")) ||
      (← peek (Ahead.oneOf ["self", "Self", "super", "crate"])) then
    node .pathExpr (anyPath read true)
  else if ← peek (Ahead.word "const") then
    node .constExpr do
      word "const"
      attributedBlock read
  else
    expected ["literal", "identifier", "`::`", "`<`", "`self`", "`Self`", "`super`", "`crate`",
      "`const`"]
  return true

/-- Reads the dots of a range pattern, and says whether the range includes its upper end. Three
dots mean the same as two dots and an equality sign. -/
def rangeDots : Parser Bool := do
  if ← mark? "..=" then return true
  else if ← peek (Ahead.mark "...") then
    let place := (← ahead).head?.elim Extent.nowhere Token.head
    dropMark "..."
    for (c, joined) in [('.', true), ('.', true), ('=', false)] do
      emit (.token (.mark c joined place))
    return true
  else if ← mark? ".." then return false
  else expected ["`..`"]

/-- Reads the dots and the upper end of a range pattern, and says whether there is an end. -/
def rangeEnd : Parser Bool := do
  let closed ← rangeDots
  let bounded ← rangeBound read
  if closed && !bounded then fail (.refused "expected range upper bound")
  return bounded

/-- Reads the rest of a range pattern whose lower end has been read last. -/
def rangeFrom : Parser Unit := do
  let (bounded, parts) ← collect (rangeEnd read)
  extend (if bounded then .pattern else .openRangePattern) (for p in parts do emit p)

def pathPattern : Parser Unit := do
  node .pathExpr (anyPath read true)
  let plain := (← get).row.head?.any fun p => p.parts.all isPlainPath
  if plain && (← peek (Ahead.mark "!")) && !(← peek (Ahead.mark "!=")) then
    extend .pattern (discard macroCall)
  else if ← peek (Ahead.group .brace) then
    extend .pattern do
      braces do
        repeatWhile do
          if ← atEnd then return false
          outerAttributes read
          if ← mark? ".." then return false
          fieldPattern
          if ← atEnd then return false
          mark ","
          return true
  else if ← peek (Ahead.group .parenthesis) then
    extend .pattern do parens (separated "," (read .alternatives))
  else if ← peek (Ahead.mark "..") then rangeFrom read
where
  /-- Reads the pattern of a field. -/
  fieldPattern : Parser Unit := node .pattern do
    let boxed ← word? "box"
    let byReference ← word? "ref"
    let mutable ← word? "mut"
    let short := boxed || byReference || mutable
    if !short && (← peek (Ahead.number false)) then
      fieldNumber
      mark ":"
      read .alternatives
    else
      if !short && !(← peek Ahead.name) then
        fail (.refused "expected identifier or integer")
      name
      if !short && (← peek (Ahead.mark ":")) then
        mark ":"
        read .alternatives

/-- Reads patterns in brackets, where a range needs both ends. -/
def slicePattern : Parser Unit := node .pattern do
  brackets do
    repeatWhile do
      if ← atEnd then return false
      read .alternatives
      match (← get).row.head? with
      | some (.node .openRangePattern parts) =>
        let dots := parts.findSome? fun
          | .token (.mark '.' _ e) => some e
          | _ => none
        let rule := "range pattern is not allowed unparenthesized inside slice pattern"
        throw { fault := .refused rule, place := dots }
      | _ => pure ()
      if ← atEnd then return false
      mark ","
      return true

def pathPatternAhead (ts : List Token) : Bool :=
  let second := ts.drop 1
  (Ahead.name ts && (Ahead.mark "::" second || Ahead.mark "!" second ||
      Ahead.group .brace second || Ahead.group .parenthesis second || Ahead.mark ".." second)) ||
    (Ahead.word "self" ts && Ahead.mark "::" second) || Ahead.mark "::" ts || Ahead.mark "<" ts ||
    Ahead.oneOf ["Self", "super", "crate"] ts

def pattern : Parser Unit := do
  if ← peek pathPatternAhead then pathPattern read
  else if ← peek (Ahead.word "_") then node .pattern anyName
  else if ← peek (Ahead.word "box") then
    verbatim .verbatimPattern do
      word "box"
      read .pattern
  else if (← peek (Ahead.mark "-")) || (← peek Ahead.literal) || (← peek (Ahead.word "const")) then
    if !(← rangeBound read) then expected []
    if ← peek (Ahead.mark "..") then rangeFrom read
    else extend .pattern (pure ())
  else if (← peek (Ahead.oneOf ["ref", "mut", "self"])) || (← peek Ahead.name) then
    node .namePattern do
      discard (word? "ref")
      discard (word? "mut")
      if ← peek (Ahead.word "self") then anyName else name
      if ← mark? "@" then read .pattern
  else if ← peek (Ahead.mark "&") then
    node .pattern do
      mark "&"
      discard (word? "mut")
      read .pattern
  else if ← peek (Ahead.group .parenthesis) then
    node .pattern do parens (separated "," (read .alternatives))
  else if ← peek (Ahead.group .bracket) then slicePattern read
  else if (← peek (Ahead.mark "..")) && !(← peek (Ahead.mark "...")) then
    let (bounded, parts) ← collect (rangeEnd read)
    if bounded then emit (.node .openRangePattern parts) else emit (.node .restPattern parts)
  else
    expected ["identifier", "`::`", "`<`", "`_`", "literal", "`const`", "`ref`", "`mut`", "`&`",
      "parentheses", "square brackets", "`..`", "`const`"]

end FormulaBinding.Grammar
