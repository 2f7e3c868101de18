import FormulaBinding.Toml.Moment
import FormulaBinding.Toml.Quoted

/-! # Keys and single values of TOML

A second reading finds out what keys and single values mean. A value that is not quoted is taken for
a number, a moment, a truth value or a forgotten pair of quotes by the way it begins. -/
namespace FormulaBinding.Toml
namespace Lexeme

/-- Whether a character may stand in an unquoted key. -/
def isKeyChar (c : Char) : Bool := c.isAlphanum || c == '-' || c == '_'

def keyName (l : Lexeme) : Except Fault String :=
  match l.kind with
  | .quoted quote true =>
    let name := if quote = '"' then "basic" else "literal"
    l.fault 0 l.chars.length
      s!"keys cannot be multi-line {name} strings, expected basic string, literal string"
  | .quoted quote false => l.quotedText quote false
  | _ =>
    if l.chars.isEmpty then
      l.fault 0 0 "unquoted keys cannot be empty, expected letters, numbers, `-`, `_`"
    else
      match l.chars.findIdx? (!isKeyChar ·) with
      | some i => l.fault i i "invalid unquoted key, expected letters, numbers, `-`, `_`"
      | none => .ok (String.ofList l.chars)

/-- How far the rest of a value is from its beginning. -/
def distance (l : Lexeme) (rest : List Char) : Nat := l.chars.length - rest.length

/-- Text that is no value: either its opening quotes or both of them are missing. -/
def unquoted {α : Type} (l : Lexeme) : Except Fault α :=
  match l.chars.reverse with
  | '\'' :: '\'' :: '\'' :: _ => l.fault 0 0 "missing opening quote, expected `'''`"
  | '"' :: '"' :: '"' :: _ => l.fault 0 0 "missing opening quote, expected `\"\"\"`"
  | '\'' :: _ => l.fault 0 0 "missing opening quote, expected `'`"
  | '"' :: _ => l.fault 0 0 "missing opening quote, expected `\"`"
  | _ => l.fault 0 l.chars.length "string values must be quoted, expected literal string"

def checkLeadingZero (l : Lexeme) (rest : List Char) : Except Fault Unit :=
  if rest.head? = some '0' then
    l.fault (l.distance rest) (l.distance rest + 1) "unexpected leading zero, expected nothing"
  else .ok ()

/-- Takes digits and underscores off the rest of a value. There have to be digits; if there are
several, they start with a zero only where that is allowed. -/
def takeDigits (l : Lexeme) (rest : List Char) (zeros : Bool) (part : String) :
    Except Fault (List Char) := do
  let inside := fun c : Char => c.isDigit || c == '_'
  let count := ((rest.takeWhile inside).filter Char.isDigit).length
  if count = 0 then
    l.fault (l.distance rest) (l.distance rest) s!"invalid {part}, expected digits"
  if 1 < count ∧ !zeros then l.checkLeadingZero rest
  return rest.dropWhile inside

/-- Fails unless the rest of a value is a number with a fraction or an exponent. -/
def checkFloat (l : Lexeme) (rest : List Char) : Except Fault Unit := do
  let rest ← l.takeDigits rest false "mantissa"
  let rest ← match rest with
    | '.' :: rest => l.takeDigits rest true "fraction"
    | _ => pure rest
  let rest ← match rest with
    | e :: more =>
      if e = 'e' ∨ e = 'E' then
        match more with
        | '+' :: more => l.takeDigits more true "exponent"
        | '-' :: more => l.takeDigits more true "exponent"
        | _ => l.takeDigits more true "exponent"
      else pure rest
    | [] => pure rest
  if !rest.isEmpty then
    l.fault (l.distance rest) l.chars.length "invalid float, expected nothing"

/-- The parts of a text between underscores, each with its distance from a beginning. -/
def parts (at' : Nat) : List Char → List (Nat × List Char)
  | [] => [(at', [])]
  | c :: cs =>
    if c = '_' then (at', []) :: parts (at' + 1) cs
    else
      match parts (at' + 1) cs with
      | (_, p) :: ps => (at', c :: p) :: ps
      | [] => [(at', [c])]

/-- Where underscores in the rest of a value stand that are not between digits. -/
def misplacedUnderscores (l : Lexeme) (rest : List Char) (isDigit : Char → Bool) : List Nat :=
  let finish := l.chars.length
  let aroundPart := fun (start, part) =>
    let stop := start + part.length
    (if 0 < start ∧ part.head?.any (!isDigit ·) then [start - 1] else []) ++
      (if 1 < part.length ∧ stop < finish ∧ part.getLast?.any (!isDigit ·) then [stop] else []) ++
      if part.isEmpty ∧ start ≠ 0 ∧ stop ≠ finish then [start - 1] else []
  if rest.contains '_' then
    (if rest.head? = some '_' then [0] else []) ++
      (if 1 < rest.length ∧ rest.getLast? = some '_' then [finish - 1] else []) ++
      (parts (l.distance rest) rest).flatMap aroundPart
  else []

/-- Fails unless underscores in the rest of a value stand between digits. -/
def checkUnderscores (l : Lexeme) (rest : List Char) (isDigit : Char → Bool) :
    Except Fault Unit :=
  match l.misplacedUnderscores rest isDigit with
  | start :: _ =>
    l.fault start (start + 1) "`_` may only go between digits, expected nothing"
  | [] => .ok ()

def digitsValue (base : Nat) (cs : List Char) : Nat :=
  cs.foldl (fun n c => if c = '_' then n else base * n + (Literal.hexValue? c).getD 0) 0

/-- Whether a character is a digit in base sixteen. -/
def isHexDigit (c : Char) : Bool := (Literal.hexValue? c).isSome

/-- The whole number in base ten that a value with perhaps a sign is. -/
def whole (l : Lexeme) : Except Fault Value := do
  l.checkUnderscores l.chars isHexDigit
  let n : Int := digitsValue 10 (l.chars.filter Char.isDigit)
  return .integer (some (if l.chars.head? = some '-' then -n else n))

def float (l : Lexeme) : Except Fault Value := do
  l.checkUnderscores l.chars Char.isDigit
  let cs := l.chars.filter (· != '_')
  return .float (String.ofList (if cs.head? = some '+' then cs.drop 1 else cs))

/-- A base that the letter behind a leading zero says. -/
structure Base where
  letter : Char
  name : String
  size : Nat
  isDigit : Char → Bool

/-- The bases and their letters. Ten needs no letter. -/
def bases : List Base :=
  [⟨'x', "hexadecimal", 16, isHexDigit⟩, ⟨'o', "octal", 8, fun c => '0' ≤ c && c ≤ '7'⟩,
    ⟨'b', "binary", 2, fun c => c == '0' || c == '1'⟩, ⟨'d', "integer", 10, Char.isDigit⟩]

/-- The whole number in some base whose digits are the rest of a value. -/
def inBase (l : Lexeme) (base : Base) (letter : Char) (rest : List Char) (signed : Bool) :
    Except Fault Value := do
  if signed then l.fault 0 1 "integers with a radix cannot be signed, expected nothing"
  if base.size = 10 then l.fault 0 2 "redundant integer number prefix, expected nothing"
  if letter ≠ base.letter then
    let start := l.distance rest - 2
    l.fault start (start + 2) s!"radix must be lowercase, expected `0{base.letter}`"
  if rest.head? = some '+' ∨ rest.head? = some '-' then
    l.fault (l.distance rest) (l.distance rest + 1) "unexpected sign, expected nothing"
  match rest.findIdx? fun c => c != '_' && !base.isDigit c with
  | some i =>
    l.fault (l.distance rest + i) (l.distance rest + i) s!"invalid {base.name} number"
  | none =>
    l.checkUnderscores rest isHexDigit
    return .integer (if rest.all (· == '_') then none else some (digitsValue base.size rest))

/-- The moment, or the number in base ten, that a value is; the rest is behind its sign. -/
def momentOrNumber (l : Lexeme) (rest : List Char) : Except Fault Value := do
  match rest.dropWhile Char.isDigit with
  | [] =>
    l.checkLeadingZero rest
    l.whole
  | c :: more =>
    if c = '-' ∨ c = ':' then
      match Moment.flaw? l.chars with
      | some flaw => l.fault 0 l.chars.length flaw.message
      | none => return .time (String.ofList l.chars)
    else if more.contains ' ' ∨ c = ' ' then l.unquoted
    else if (c :: more).any fun d => d == '.' || d == 'e' || d == 'E' then
      l.checkFloat rest
      l.float
    else if c = '_' then
      l.checkLeadingZero rest
      l.whole
    else l.unquoted

/-- The value of a word that begins as a known one does and should be that. -/
def known (l : Lexeme) (rest : List Char) (kind text : String) (v : Value) : Except Fault Value :=
  if rest = text.toList then .ok v
  else
    l.fault (l.distance rest) l.chars.length s!"invalid {kind}, expected `{text}`"

def zero (l : Lexeme) (rest : List Char) (signed : Bool) : Except Fault Value :=
  match rest with
  | _ :: letter :: digits =>
    match bases.find? fun b => b.letter == letter.toLower with
    | some base => l.inBase base letter digits signed
    | none => l.momentOrNumber rest
  | _ => .ok (.integer (some 0))

/-- The value that an unquoted text denotes; the rest is behind a sign. -/
def signedValue (l : Lexeme) : List Char → Except Fault Value
  | [] => l.unquoted
  | c :: cs =>
    match c with
    | '+' | '-' =>
      let start := l.distance (c :: cs)
      l.fault start (start + 1) "redundant numeric sign, expected nothing"
    | '0' => l.zero (c :: cs) true
    | '.' => do
      l.checkFloat (c :: cs)
      l.float
    | 'i' | 'I' => l.known (c :: cs) "float" "inf" (.float (String.ofList l.chars))
    | 'n' | 'N' => l.known (c :: cs) "float" "nan" (.float (String.ofList l.chars))
    | _ => if c.isDigit || c == '_' then l.momentOrNumber (c :: cs) else l.unquoted

def plainValue (l : Lexeme) : Except Fault Value :=
  let word := fun (kind text : String) (v : Value) =>
    if l.chars.contains ' ' then l.unquoted else l.known l.chars kind text v
  match l.chars with
  | [] => l.unquoted
  | c :: cs =>
    match c with
    | '+' => (l.signedValue cs).map fun
      | .float text => .float (if text.startsWith "+" then (text.drop 1).toString else text)
      | v => v
    | '-' => l.signedValue cs
    | '0' => l.zero (c :: cs) false
    | '.' => do
      l.checkFloat (c :: cs)
      l.float
    | 't' | 'T' => word "boolean" "true" (.boolean true)
    | 'f' | 'F' => word "boolean" "false" (.boolean false)
    | 'i' | 'I' => word "float" "inf" (.float "inf")
    | 'n' | 'N' => word "float" "nan" (.float "nan")
    | _ => if c.isDigit || c == '_' then l.momentOrNumber (c :: cs) else l.unquoted

def value (l : Lexeme) : Except Fault Value :=
  match l.kind with
  | .quoted quote long => (l.quotedText quote long).map .text
  | _ => l.plainValue

end Lexeme
end FormulaBinding.Toml
