import FormulaBinding.Token.Literal
import FormulaBinding.Toml.Lexeme

/-! # Quoted texts of TOML

A text in quotes denotes what is between them. In double quotes a backslash begins an escape. -/
namespace FormulaBinding.Toml

/-- What is wrong with a text: a complaint about some characters, and how long the text is from them
on. -/
structure Flaw where
  left : Nat
  length : Nat
  complaint : String

def flawBefore {α : Type} (cs : List Char) (complaint : String) : Except Flaw α :=
  .error ⟨cs.length, 0, complaint⟩

def escapeComplaint : String :=
  "missing escaped value, expected `b`, `e`, `f`, `n`, `r`, `\\`, `\"`, `x`, `u`, `U`"

/-- The complaint about a line end that is a carriage return alone. -/
def returnComplaint : String := "carriage return must be followed by newline, expected newline"

/-- The character of a code with so many digits in base sixteen, and the rest behind them. -/
def readCode (digits : Nat) (cs : List Char) : Except Flaw (Char × List Char) :=
  let code := (cs.take digits).takeWhile fun c => (Literal.hexValue? c).isSome
  let rest := cs.drop code.length
  let n := code.foldl (fun n c => 16 * n + (Literal.hexValue? c).getD 0) 0
  if code.length ≠ digits then
    flawBefore rest "too few unicode value digits, expected unicode hexadecimal value"
  else if n.isValidChar then .ok (Char.ofNat n, rest)
  else flawBefore cs "invalid value, expected unicode hexadecimal value"

/-- The character that an escape denotes, read behind its backslash, and the rest. -/
def readEscape : List Char → Except Flaw (Char × List Char)
  | 'b' :: cs => .ok ('\x08', cs)
  | 't' :: cs => .ok ('\t', cs)
  | 'n' :: cs => .ok ('\n', cs)
  | 'f' :: cs => .ok ('\x0c', cs)
  | 'r' :: cs => .ok ('\r', cs)
  | 'e' :: cs => .ok ('\x1b', cs)
  | '"' :: cs => .ok ('"', cs)
  | '\\' :: cs => .ok ('\\', cs)
  | 'x' :: cs => readCode 2 cs
  | 'u' :: cs => readCode 4 cs
  | 'U' :: cs => readCode 8 cs
  | cs => flawBefore cs escapeComplaint

/-- Whether a character may stand as it is in a text on one line. -/
def isVisible (c : Char) : Bool := c == '\t' || (' ' ≤ c && c != '\x7f')

/-- A text without blanks and line ends at its beginning. -/
def dropSpace : List Char → Except Flaw (List Char)
  | '\r' :: '\n' :: cs => dropSpace cs
  | '\r' :: cs => flawBefore cs returnComplaint
  | '\n' :: cs => dropSpace cs
  | c :: cs => if isBlank c then dropSpace cs else .ok (c :: cs)
  | [] => .ok []

/-- The rest behind a backslash that takes away a line end and all blanks and line ends up to the
next character. -/
def joinLines (cs : List Char) : Except Flaw (List Char) :=
  let rest := cs.dropWhile isBlank
  if rest.head? = some '\n' ∨ rest.head? = some '\r' then dropSpace rest
  else flawBefore rest "invalid multi-line basic string, expected newline"

/-- Whether a character may stand as it is in double quotes, on one line or on several. -/
def isBasic (long : Bool) (c : Char) : Bool := c != '\\' && (isVisible c || (long && c == '\n'))

/-- What a text with escapes denotes, on one line or on several. Each step uses up one unit of
fuel. -/
def unescape (long : Bool) : Nat → List Char → Except Flaw (List Char)
  | 0, _ => .ok []
  | _ + 1, [] => .ok []
  | n + 1, '\\' :: cs => do
    if long ∧ cs.head?.any fun c => isBlank c || c == '\n' || c == '\r' then
      unescape long n (← joinLines cs)
    else
      let (d, rest) ← readEscape cs
      return d :: (← unescape long n rest)
  | n + 1, c :: cs => do
    if isBasic long c then return c :: (← unescape long n cs)
    else if long ∧ c = '\r' then
      if cs.head? ≠ some '\n' then flawBefore cs returnComplaint
      return c :: (← unescape long n cs)
    else
      let wrong := (c :: cs).takeWhile fun c =>
        !isBasic long c && c != '\\' && !(long && c == '\r')
      let complaint := if long then
          "invalid multi-line basic string, expected printable characters, `\\`"
        else "invalid basic string, expected non-double-quote visible characters, `\\`"
      throw ⟨cs.length + 1, wrong.length, complaint⟩

/-- What a text without escapes denotes, on one line or on several: the text itself. -/
def checkLiteral (long : Bool) : List Char → Except Flaw Unit
  | [] => .ok ()
  | c :: cs =>
    if isVisible c ∨ (long ∧ c = '\n') then checkLiteral long cs
    else if long ∧ c = '\r' then
      if cs.head? = some '\n' then checkLiteral long cs else flawBefore cs returnComplaint
    else
      flawBefore (c :: cs) <|
        if long then "invalid multi-line literal string, expected non-single-quote characters"
        else "invalid literal string, expected non-single-quote visible characters"

def dropFirstLineEnd : List Char → List Char
  | '\n' :: cs => cs
  | '\r' :: '\n' :: cs => cs
  | cs => cs

def dropEnding? (ending : List Char) (cs : List Char) : Option (List Char) :=
  let kept := cs.take (cs.length - ending.length)
  if kept ++ ending = cs then some kept else none

def Lexeme.quotedText (l : Lexeme) (quote : Char) (long : Bool) : Except Fault String := do
  let cs := l.chars
  let delimiter := List.replicate (if long then 3 else 1) quote
  let name := (if long then "multi-line " else "") ++ if quote = '"' then "basic" else "literal"
  let unclosed := s!"invalid {name} string, expected `{quote}`"
  let rest := cs.drop delimiter.length
  match dropEnding? delimiter (if long then dropFirstLineEnd rest else rest) with
  | none => l.fault cs.length cs.length unclosed
  | some inner =>
    let read := if quote = '"' then unescape long (inner.length + 1) inner
      else (checkLiteral long inner).map fun _ => inner
    match read with
    | .ok text => return String.ofList text
    | .error flaw =>
      let start := cs.length - delimiter.length - flaw.left
      l.fault start (start + flaw.length) flaw.complaint

end FormulaBinding.Toml
