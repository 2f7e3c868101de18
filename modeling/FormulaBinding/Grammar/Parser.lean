import FormulaBinding.Phrase.Basic
import FormulaBinding.Token.Literal

/-! # Reading phrases from tokens

A parser takes tokens from a cursor and adds the phrases it makes of them to the cursor's row.
Groups are read to their end; what is left over inside one is remembered and reported when the
whole text has been read. -/
namespace FormulaBinding

/-- What is wrong at a place of a text. -/
inductive Fault where
  /-- The text cannot be cut into tokens. -/
  | unreadable
  /-- One of some things was expected. -/
  | expected (things : List String)
  /-- A keyword stands where a name was expected. -/
  | keyword (word : String)
  /-- Something is left where the text, or the group with the delimiter, should have ended. -/
  | leftover (inside : Option Delimiter)
  /-- A rule beyond the grammar is broken. -/
  | refused (rule : String)
  deriving DecidableEq, Repr, Inhabited

/-- A failed reading: the fault, whether the text or the group ended there, and what is shown of the
text as its place, if there is something. -/
structure ParseError where
  fault : Fault
  atEnd : Bool := false
  place : Option Extent := none
  deriving DecidableEq, Repr, Inhabited

namespace Fault

def message : Fault → String
  | unreadable => "cannot parse string into token stream"
  | expected [] => "unexpected token"
  | expected [a] => "expected " ++ a
  | expected [a, b] => "expected " ++ a ++ " or " ++ b
  | expected things => "expected one of: " ++ String.intercalate ", " things
  | keyword word => "expected identifier, found keyword `" ++ word ++ "`"
  | leftover none => "unexpected token"
  | leftover (some d) => "unexpected token, expected `" ++ d.closing.toString ++ "`"
  | refused rule => rule

end Fault

namespace ParseError

def message (e : ParseError) : String :=
  if e.atEnd then
    match e.fault with
    | .expected [] => "unexpected end of input"
    | fault => "unexpected end of input, " ++ fault.message
  else e.fault.message

end ParseError

/-- Where a parser stands: the tokens ahead, the delimiter and the place of the end of the group it
is in, the first leftover met in an inner group, and the phrases made so far, last one first. -/
structure Cursor where
  rest : List Token
  inside : Option (Delimiter × Extent) := none
  leftover : Option ParseError := none
  row : List Phrase := []

abbrev Parser (α : Type) := StateT Cursor (Except ParseError) α

namespace Cursor

def place (c : Cursor) : Option Extent :=
  match c.rest with
  | t :: _ => some t.head
  | [] => c.inside.map (·.2)

/-- A fault at the cursor, which the end of the text is a part of. Where nothing else was expected
all of the token is shown. -/
def error (c : Cursor) (fault : Fault) : ParseError :=
  let place := match fault, c.rest with
    | .expected [], t :: _ => some t.whole
    | _, _ => c.place
  ⟨fault, c.rest.isEmpty, place⟩

def plainError (c : Cursor) (fault : Fault) : ParseError := ⟨fault, false, c.place⟩

def leftoverError? (c : Cursor) : Option ParseError :=
  match c.rest with
  | [] => none
  | t :: _ => some ⟨.leftover (c.inside.map (·.1)), false, some t.whole⟩

end Cursor

def reservedWords : List String :=
  ["_", "abstract", "as", "async", "await", "become", "box", "break", "const", "continue", "crate",
    "do", "dyn", "else", "enum", "extern", "false", "final", "fn", "for", "if", "impl", "in",
    "let", "loop", "macro", "match", "mod", "move", "mut", "override", "priv", "pub", "ref",
    "return", "Self", "self", "static", "struct", "super", "trait", "true", "try", "type",
    "typeof", "unsafe", "unsized", "use", "virtual", "where", "while", "yield"]

namespace Ahead

/-- Whether an identifier or a keyword is ahead. -/
def anyName : List Token → Bool
  | .name _ _ :: _ => true
  | _ => false

def name : List Token → Bool
  | .name w _ :: _ => !reservedWords.contains w
  | _ => false

def word (w : String) : List Token → Bool
  | .name v _ :: _ => v == w
  | _ => false

def oneOf (ws : List String) : List Token → Bool
  | .name v _ :: _ => ws.contains v
  | _ => false

/-- Whether an operator is ahead: its characters, all but the last joined to the next. More may
follow. -/
def markChars : List Char → List Token → Bool
  | [], _ => true
  | [c], .mark d _ _ :: _ => c == d
  | c :: cs, .mark d joined _ :: ts => c == d && joined && markChars cs ts
  | _, _ => false

def mark (m : String) (ts : List Token) : Bool := markChars m.toList ts

def lifetime : List Token → Bool
  | .lifetime _ _ :: _ => true
  | _ => false

def group (d : Delimiter) : List Token → Bool
  | .group e _ _ _ :: _ => d == e
  | _ => false

/-- Whether a number is ahead, and of which sort; it may be negative. -/
def number (fraction : Bool) (ts : List Token) : Bool :=
  let isNumber (text : String) : Bool :=
    text.toList.head?.any Char.isDigit && Literal.isFraction text == fraction
  match ts with
  | .literal text _ :: _ => isNumber text
  | .mark '-' _ _ :: .literal text _ :: _ => isNumber text
  | _ => false

def stringLiteral : List Token → Bool
  | .literal text _ :: _ => text.toList.head?.any fun c => c == '"' || c == 'r'
  | _ => false

/-- Whether a literal is ahead: a literal token, a truth value, or a negative number. -/
def literal : List Token → Bool
  | .literal _ _ :: _ => true
  | .name w _ :: _ => w == "true" || w == "false"
  | .mark '-' _ _ :: .literal text _ :: _ => text.toList.head?.any Char.isDigit
  | _ => false

end Ahead

namespace Parser

def ahead : Parser (List Token) := return (← get).rest

def peek (test : List Token → Bool) : Parser Bool := return test (← get).rest

def peek2 (test : List Token → Bool) : Parser Bool := return test ((← get).rest.drop 1)

/-- Whether something is ahead behind two tokens. -/
def peek3 (test : List Token → Bool) : Parser Bool := return test ((← get).rest.drop 2)

def atEnd : Parser Bool := return (← get).rest.isEmpty

def fail {α : Type} (fault : Fault) : Parser α := do throw ((← get).error fault)

def expected {α : Type} (things : List String) : Parser α := fail (.expected things)

def emit (p : Phrase) : Parser Unit := modify fun c => { c with row := p :: c.row }

def skip : Parser Unit := modify fun c => { c with rest := c.rest.drop 1 }

def take : Parser Unit := do
  match (← get).rest with
  | t :: _ => skip; emit (.token t)
  | [] => pure ()

def word (w : String) : Parser Unit := do
  if ← peek (Ahead.word w) then take else expected ["`" ++ w ++ "`"]

/-- Reads a keyword if it is ahead, and says whether it was. -/
def word? (w : String) : Parser Bool := do
  if ← peek (Ahead.word w) then take; return true else return false

/-- Takes the characters of an operator, each joined to the next but the last. -/
def takeMarks : Nat → Parser Unit
  | 0 => pure ()
  | n + 1 => do
    match (← get).rest with
    | .mark c _ p :: _ => skip; emit (.token (.mark c (n != 0) p)); takeMarks n
    | _ => pure ()

def mark (m : String) : Parser Unit := do
  if ← peek (Ahead.mark m) then takeMarks m.length
  else throw ((← get).plainError (.expected ["`" ++ m ++ "`"]))

/-- Reads an operator if it is ahead, and says whether it was. -/
def mark? (m : String) : Parser Bool := do
  if ← peek (Ahead.mark m) then takeMarks m.length; return true else return false

def dropMark (m : String) : Parser Unit :=
  modify fun c => { c with rest := c.rest.drop m.length }

def name : Parser Unit := do
  match (← get).rest with
  | .name w _ :: _ => if reservedWords.contains w then fail (.keyword w) else take
  | _ => expected ["identifier"]

def anyName : Parser Unit := do
  if ← peek Ahead.anyName then take else expected ["ident"]

def lifetime : Parser Unit := do
  if ← peek Ahead.lifetime then take else expected ["lifetime"]

def lifetime? : Parser Bool := do
  if ← peek Ahead.lifetime then take; return true else return false

/-- Reads a literal; a minus sign belongs to a negative number. -/
def literal : Parser Unit := do
  match (← get).rest with
  | .mark '-' _ p :: .literal _ _ :: _ =>
    if ← peek Ahead.literal then skip; emit (.token (.mark '-' false p)); take
    else expected ["literal"]
  | _ => if ← peek Ahead.literal then take else expected ["literal"]

def stringLiteral : Parser Unit := do
  if ← peek Ahead.stringLiteral then take else expected ["string literal"]

/-- How many fields can be told apart by their positions. -/
def fieldLimit : Nat := 0x100000000

def fieldFault? (text : String) : Option String :=
  let (negative, digits) := match text.toList with
    | '-' :: cs => (true, String.ofList cs)
    | _ => (false, text)
  let (n, suffix) := Literal.wholeNumber digits
  if Literal.isFraction digits then some "expected integer literal"
  else if suffix ≠ "" then some "expected unsuffixed integer"
  else if negative then some "invalid digit found in string"
  else if fieldLimit ≤ n then some "number too large to fit in target type"
  else none

def fieldPosition (text : String) (place : Extent) : Parser Token := do
  match fieldFault? text with
  | some rule => throw { fault := .refused rule, place := some place }
  | none => return .literal (toString (Literal.wholeNumber text).1) place

def fieldNumber : Parser Unit := do
  match (← get).rest with
  | .literal text place :: _ =>
    let position ← fieldPosition text place
    skip
    emit (.token position)
  | .mark '-' _ sign :: .literal text place :: _ =>
    discard (fieldPosition ("-" ++ text) (sign.join place))
  | _ => expected ["integer literal"]

/-- Reads phrases into a row of their own. -/
def collect {α : Type} (p : Parser α) : Parser (α × List Phrase) := do
  let outer := (← get).row
  modify fun c => { c with row := [] }
  let a ← p
  let inner := (← get).row.reverse
  modify fun c => { c with row := outer }
  return (a, inner)

def node {α : Type} (k : Kind) (p : Parser α) : Parser α := do
  let (a, parts) ← collect p
  emit (.node k parts)
  return a

/-- Makes one phrase of the last phrase and what a parser reads after it. -/
def extend {α : Type} (k : Kind) (p : Parser α) : Parser α := do
  match (← get).row with
  | last :: before =>
    modify fun c => { c with row := before }
    node k (do emit last; p)
  | [] => node k p

def prepend (ps : List Phrase) : Parser Unit :=
  modify fun c =>
    match c.row with
    | .node k parts :: before => { c with row := .node k (ps ++ parts) :: before }
    | row => { c with row := row }

def lastKind? : Parser (Option Kind) := return (← get).row.head?.bind Phrase.kind?

/-- Reads a group, its content with the given parser. What is left of the content is remembered. -/
def inGroup {α : Type} (d : Delimiter) (missing : String) (p : Parser α) : Parser α := do
  let c ← get
  match c.rest with
  | .group e body o cl :: after =>
    if e = d then
      set ({ rest := body, inside := some (d, cl), leftover := c.leftover } : Cursor)
      let a ← p
      let content ← get
      set { c with
        rest := after
        leftover := content.leftover <|> content.leftoverError?
        row := .group d content.row.reverse o cl :: c.row }
      return a
    else expected [missing]
  | _ => expected [missing]

def parens {α : Type} (p : Parser α) : Parser α := inGroup .parenthesis "parentheses" p

def brackets {α : Type} (p : Parser α) : Parser α := inGroup .bracket "square brackets" p

def braces {α : Type} (p : Parser α) : Parser α := inGroup .brace "curly braces" p

/-- Takes a group as it is, whatever its delimiter, and returns its delimiter. -/
def anyGroup : Parser Delimiter := do
  match (← get).rest with
  | .group d _ _ _ :: _ => take; return d
  | _ => expected ["delimiter"]

/-- Repeats a parser until it says that it is done, at most so many times. -/
def repeatUpTo (p : Parser Bool) : Nat → Parser Unit
  | 0 => pure ()
  | n + 1 => do if ← p then repeatUpTo p n

/-- Repeats a parser as long as it says so; every repetition but the last takes a token. -/
def repeatWhile (p : Parser Bool) : Parser Unit := do repeatUpTo p ((← get).rest.length + 1)

def untilEnd (p : Parser Unit) : Parser Unit :=
  repeatWhile do
    if ← atEnd then return false
    p
    return true

/-- Reads phrases separated by an operator up to the end; the operator may end the list. -/
def separated (m : String) (p : Parser Unit) : Parser Unit :=
  repeatWhile do
    if ← atEnd then return false
    p
    if ← atEnd then return false
    mark m
    return true

/-- Tries a parser: when it fails, nothing has happened. -/
def attempt {α : Type} (p : Parser α) : Parser (Option α) := fun c =>
  match p { c with leftover := none } with
  | .ok (a, after) => .ok (some a, { after with leftover := c.leftover <|> after.leftover })
  | .error _ => .ok (none, c)

def succeeds {α : Type} (p : Parser α) : Parser Bool := fun c =>
  match p c with
  | .ok _ => .ok (true, c)
  | .error _ => .ok (false, c)

/-- What a parser would return here; nothing is read. -/
def foresee {α : Type} (p : Parser α) : Parser α := fun c =>
  match p c with
  | .ok (a, _) => .ok (a, c)
  | .error e => .error e

/-- Makes one phrase of the tokens read since a token list was ahead, as they are written. -/
def emitWritten (k : Kind) (before : List Token) : Parser Unit := do
  let taken := before.take (before.length - (← get).rest.length)
  emit (.node k (taken.map .token))

/-- Reads phrases but keeps the tokens as they are written. -/
def verbatim {α : Type} (k : Kind) (p : Parser α) : Parser α := do
  let before := (← get).rest
  let (a, _) ← collect p
  emitWritten k before
  return a

/-- Reads a whole token list: nothing may be left over, neither at the end nor inside a group. -/
def runAll {α : Type} (p : Parser α) (ts : List Token) : Except ParseError (α × List Phrase) := do
  let (a, c) ← p { rest := ts }
  match c.leftover <|> c.leftoverError? with
  | some e => throw e
  | none => return (a, c.row.reverse)

end Parser
end FormulaBinding
