import FormulaBinding.Toml.Lexeme

/-! # The notation of TOML

A first reading orders lexemes into headers and pairs without looking into keys and single values.
It fails at the first lexeme that is out of place. -/
namespace FormulaBinding.Toml

/-- A value as it is written. -/
inductive Node where
  | plain (l : Lexeme)
  | array (elements : List Node) (span : Span)
  | table (pairs : List (List Lexeme × Node)) (span : Span)
  deriving Inhabited

def Node.span : Node → Span
  | plain l => l.span
  | array _ s => s
  | table _ s => s

/-- A line that says something: a header of a table or of one table of several, or a key with a
value. -/
inductive Statement where
  | header (several : Bool) (path : List Lexeme) (span : Span)
  | pair (path : List Lexeme) (value : Node)

/-- Where a reader stands: what is left, where the text ends, and where the last lexeme that says
something does. -/
structure Cursor where
  rest : List Lexeme
  finish : Nat
  last : Nat

abbrev Reader (α : Type) := StateT Cursor (Except Fault) α

namespace Reader

def next? : Reader (Option Lexeme) := return (← get).rest.head?

def place : Reader Nat := do
  match (← get).rest with
  | l :: _ => return l.offset
  | [] => return (← get).finish

def skip : Reader Unit := modify fun c =>
  match c.rest with
  | l :: rest => { c with rest, last := if l.isTelling then l.stop else c.last }
  | [] => c

def skipIf (kind : Kind) : Reader Bool := do
  if (← next?).any (·.kind == kind) then
    skip
    return true
  else return false

def failAt {α : Type} (offset : Nat) (complaint : String) : Reader α := do
  throw ⟨Span.between offset, complaint⟩

def fail {α : Type} (complaint : String) : Reader α := do failAt (← place) complaint

/-- Fails behind the last lexeme that says something. -/
def failBehind {α : Type} (complaint : String) : Reader α := do failAt (← get).last complaint

def blanks : Reader Unit := discard (skipIf .blanks)

def nothing (kind : Kind) : Reader Lexeme := return ⟨kind, ← place, []⟩

/-- Skips a line end. A carriage return alone is none. -/
def lineEnd (l : Lexeme) : Reader Unit := do
  if l.chars = ['\r'] then
    failAt l.stop "carriage return must be followed by newline, expected newline"
  skip

def isCommentChar (c : Char) : Bool := c == '\t' || (' ' ≤ c && c != '\x7f')

def comment (l : Lexeme) : Reader Unit := do
  match l.chars.findIdx? (!isCommentChar ·) with
  | some i => failAt (l.offset + i) "invalid comment character, expected printable characters"
  | none => skip

/-- Skips blanks, comments and line ends, at most so many. -/
def space : Nat → Reader Unit
  | 0 => pure ()
  | n + 1 => do
    match ← next? with
    | none => pure ()
    | some l =>
      match l.kind with
      | .blanks => skip; space n
      | .comment => comment l; space n
      | .lineEnd => lineEnd l; space n
      | _ => pure ()

/-! ## Keys -/

def isKeyPart : Kind → Bool
  | .quoted _ _ => true
  | .word => true
  | _ => false

def keyPart : Reader Lexeme := do
  blanks
  match ← next? with
  | some l =>
    if isKeyPart l.kind then
      skip
      return l
    else nothing .word
  | none => nothing .word

/-- Takes the parts of a key behind its first one, at most so many. -/
def moreKeyParts : Nat → Reader (List Lexeme)
  | 0 => return []
  | n + 1 => do
    blanks
    if ← skipIf .dot then
      let part ← keyPart
      return part :: (← moreKeyParts n)
    else return []

/-- Takes a key with dots between its parts, and the blanks behind it. -/
def key : Reader (List Lexeme) := do
  let first ← keyPart
  return first :: (← moreKeyParts ((← get).rest.length + 1))

/-! ## Values -/

/-- What belongs to a value that is not quoted: words and dots, with blanks between them. -/
def plainTail : List Lexeme → List Char × List Lexeme
  | [] => ([], [])
  | l :: ls =>
    if l.isPlain || (l.kind == .blanks && ls.head?.any Lexeme.isPlain) then
      let (cs, rest) := plainTail ls
      (l.chars ++ cs, rest)
    else ([], l :: ls)

/-- Takes a value that is neither an array nor a table, given its first lexeme. -/
def single (l : Lexeme) : Reader Node := do
  skip
  if l.isPlain then
    let (cs, rest) := plainTail (← get).rest
    let whole : Lexeme := { l with kind := .word, chars := l.chars ++ cs }
    modify fun c => { c with rest, last := whole.stop }
    return .plain whole
  else return .plain l

/-- How deep arrays and tables may be nested. -/
def maxDepth : Nat := 80

/-- Takes the lexeme that opens an array or a table, inside of so many others. -/
def opening (depth : Nat) (l : Lexeme) : Reader Unit := do
  if maxDepth ≤ depth then
    throw ⟨l.span, "cannot recurse further; max recursion depth met"⟩
  skip

/-- What may stand ahead in a table between braces. -/
inductive Expectation where
  | key
  | assignment (path : List Lexeme)
  | value (path : List Lexeme)
  | comma

def Expectation.message : Expectation → String
  | key => "key"
  | assignment _ => "`=`"
  | value _ => "value"
  | comma => "`,`"

/-- The pair without a value that a table between braces breaks off with. -/
def Expectation.unfinished : Expectation → Reader (List (List Lexeme × Node))
  | assignment path => return [(path, .plain (← nothing (.quoted '\'' false)))]
  | value path => return [(path, .plain (← nothing (.quoted '\'' false)))]
  | _ => return []

mutual

/-- Takes a value inside of so many others. The fuel is twice the number of lexemes
ahead at least, because an array or a table uses up two units where it is opened. -/
def value : Nat → Nat → Reader Node
  | 0, _ => fail "missing value, expected value"
  | n + 1, depth => do
    match ← next? with
    | none => return .plain (← nothing .word)
    | some l =>
      match l.kind with
      | .openBracket =>
        opening depth l
        let elements ← elements n (depth + 1) false
        return .array elements ⟨l.offset, (← get).last⟩
      | .openBrace =>
        opening depth l
        let pairs ← pairs n (depth + 1) .key
        return .table pairs ⟨l.offset, (← get).last⟩
      | .equals => throw ⟨l.span, "extra `=`, expected nothing"⟩
      | .closeBrace => fail "missing inline table opening, expected `\x7b`"
      | .closeBracket => fail "missing array opening, expected `[`"
      | .comma | .blanks | .comment | .lineEnd => return .plain (← nothing .word)
      | .dot | .word | .quoted _ _ => single l

/-- Takes the elements of an array, from a comma on or without one, and the bracket behind them. -/
def elements : Nat → Nat → Bool → Reader (List Node)
  | 0, _, _ => fail "unclosed array, expected `]`"
  | n + 1, depth, afterElement => do
    space (← get).rest.length
    match ← next? with
    | none => failBehind "unclosed array, expected `]`"
    | some l =>
      match l.kind with
      | .closeBracket => skip; return []
      | .comma =>
        if !afterElement then throw ⟨l.span, "extra comma in array, expected value"⟩
        skip
        elements n depth false
      | .equals => throw ⟨l.span, "unexpected `=` in array, expected value, `]`"⟩
      | _ =>
        if afterElement then fail "missing comma between array elements, expected `,`"
        let element ← value n depth
        return element :: (← elements n depth true)

/-- Takes the pairs of a table between braces, from what is expected on, and the brace behind
them. -/
def pairs : Nat → Nat → Expectation → Reader (List (List Lexeme × Node))
  | 0, _, _ => fail "unclosed inline table, expected `\x7d`"
  | n + 1, depth, expected => do
    space (← get).rest.length
    match ← next? with
    | none => failBehind "unclosed inline table, expected `\x7d`"
    | some l =>
      match l.kind, expected with
      | .closeBrace, expected =>
        let last ← expected.unfinished
        skip
        return last
      | .comma, .comma => skip; pairs n depth .key
      | .comma, e => throw ⟨l.span, s!"extra comma in inline table, expected {e.message}"⟩
      | .equals, .key =>
        let path := [← nothing .word]
        skip
        pairs n depth (.value path)
      | .equals, .assignment path => skip; pairs n depth (.value path)
      | .equals, e =>
        throw ⟨l.span, s!"extra assignment between key-value pairs, expected {e.message}"⟩
      | .closeBracket, .value _ => fail "missing array opening, expected `[`"
      | .closeBracket, e => fail s!"invalid inline table element, expected {e.message}"
      | .openBracket, .key | .openBrace, .key =>
        fail "missing key for inline table element, expected key"
      | .openBracket, .comma | .openBrace, .comma =>
        fail "missing key for inline table element, expected `,`"
      | _, .assignment _ => fail "missing assignment between key-value pairs, expected `=`"
      | _, .comma => fail "missing comma between key-value pairs, expected `,`"
      | _, .key =>
        let path ← key
        pairs n depth (.assignment path)
      | _, .value path =>
        let content ← value n depth
        return (path, content) :: (← pairs n depth .comma)

end

/-! ## Lines -/

/-- Takes the end of a line that says something. -/
def ending : Reader Unit := do
  blanks
  match ← next? with
  | none => pure ()
  | some l =>
    match l.kind with
    | .lineEnd => lineEnd l
    | .comment => comment l
    | _ => fail "unexpected key or value, expected newline, `#`"

/-- Takes a header. A missing bracket is no fault if there is something wrong with the key. -/
def header (start : Nat) : Reader Statement := do
  skip
  let several ← skipIf .openBracket
  let path ← key
  let named := path.getLast?.any fun l => !l.chars.isEmpty
  let closed ← skipIf .closeBracket
  if several then
    if closed then
      if !(← skipIf .closeBracket) then failBehind "unclosed array table, expected `]`"
    else if named then failBehind "unclosed array table, expected `]]`"
  else if !closed ∧ named then failBehind "unclosed table, expected `]`"
  let stop := (← get).last
  if closed then ending
  else modify fun c => { c with rest := c.rest.dropWhile fun l => l.kind != .lineEnd }
  return .header several path ⟨start, stop⟩

def pair (complaint : String) : Reader Statement := do
  let path ← key
  if !(← skipIf .equals) then fail complaint
  blanks
  let content ← value (2 * (← get).rest.length + 2) 0
  ending
  return .pair path content

/-- Takes statements up to the end of the text, at most so many. -/
def statements : Nat → Reader (List Statement)
  | 0 => return []
  | n + 1 => do
    space (← get).rest.length
    match ← next? with
    | none => return []
    | some l =>
      match l.kind with
      | .openBracket =>
        let s ← header l.offset
        return s :: (← statements n)
      | .closeBracket => fail "missing table open, expected `[`"
      | .comma | .openBrace | .closeBrace =>
        fail "missing key for inline table element, expected key"
      | kind =>
        let s ← pair (if kind = .dot then "missing value for key, expected `=`"
          else "key with no value, expected `=`")
        return s :: (← statements n)

end Reader

def statements (text : List Char) : Except Fault (List Statement) :=
  let start : Cursor := ⟨lexemes text, text.length, 0⟩
  (Reader.statements (text.length + 1) start).map (·.1)

end FormulaBinding.Toml
