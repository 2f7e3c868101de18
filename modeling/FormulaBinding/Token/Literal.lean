import FormulaBinding.Text.Blank
import FormulaBinding.Text.Printable

/-! # String literals

Writing a text as a string literal and reading the text that a string literal denotes. -/
namespace FormulaBinding.Literal

/-- The digits of a number in base sixteen, in lower case. -/
def hexDigits (n : Nat) : List Char := Nat.toDigits 16 n

def hexValue? (c : Char) : Option Nat :=
  if '0' ≤ c ∧ c ≤ '9' then some (c.toNat - '0'.toNat)
  else if 'a' ≤ c ∧ c ≤ 'f' then some (c.toNat - 'a'.toNat + 10)
  else if 'A' ≤ c ∧ c ≤ 'F' then some (c.toNat - 'A'.toNat + 10)
  else none

/-- How a character is written when it cannot be shown as it is. -/
def codeEscape (c : Char) : List Char := '\\' :: 'u' :: '{' :: (hexDigits c.toNat ++ ['}'])

/-- How NUL is written: before an octal digit with two digits of its own. -/
def nulEscape : List Char → List Char
  | next :: _ => if '0' ≤ next ∧ next ≤ '7' then "\\x00".toList else "\\0".toList
  | [] => "\\0".toList

def escape : List Char → List Char
  | [] => []
  | c :: cs =>
    (if c = '\x00' then nulEscape cs
     else if c = '\t' then "\\t".toList
     else if c = '\r' then "\\r".toList
     else if c = '\n' then "\\n".toList
     else if c = '"' then "\\\"".toList
     else if c = '\\' then "\\\\".toList
     else if Text.isShowable c then [c]
     else codeEscape c) ++ escape cs

def quote (s : String) : String := String.ofList ('"' :: (escape s.toList ++ ['"']))

/-- The character of a `\u` escape after its opening brace, and what follows its closing brace;
underscores may stand between the digits. -/
def codeOf : List Char → Nat → Nat → Option (Char × List Char)
  | [], _, _ => none
  | '}' :: rest, value, _ =>
    if value.isValidChar then some (Char.ofNat value, rest) else none
  | '_' :: rest, value, digits => codeOf rest value digits
  | c :: rest, value, digits =>
    match hexValue? c with
    | some v => codeOf rest (value * 16 + v) (digits + 1)
    | none => none

/-- The value of digits in a base, and what follows them; underscores may stand between them. -/
def readDigits (base : Nat) : List Char → Nat → Nat × List Char
  | [], n => (n, [])
  | c :: cs, n =>
    if c = '_' then readDigits base cs n
    else
      match hexValue? c with
      | some v => if v < base then readDigits base cs (base * n + v) else (n, c :: cs)
      | none => (n, c :: cs)

def wholeNumber (text : String) : Nat × String :=
  let (n, suffix) := match text.toList with
    | '0' :: 'x' :: cs => readDigits 16 cs 0
    | '0' :: 'o' :: cs => readDigits 8 cs 0
    | '0' :: 'b' :: cs => readDigits 2 cs 0
    | cs => readDigits 10 cs 0
  (n, String.ofList suffix)

/-- Whether a number is written with a fraction or an exponent. -/
def isFraction (text : String) : Bool :=
  match text.toList with
  | '0' :: 'x' :: _ => false
  | '0' :: 'o' :: _ => false
  | '0' :: 'b' :: _ => false
  | cs =>
    match cs.dropWhile fun c => c.isDigit || c == '_' with
    | '.' :: _ => true
    | e :: rest =>
      (e == 'e' || e == 'E') &&
        (rest.dropWhile (· == '_')).head?.any fun c => c.isDigit || c == '+' || c == '-'
    | [] => false

def dropBlanks (cs : List Char) : List Char :=
  cs.dropWhile fun c => c == ' ' || c == '\t' || c == '\n' || c == '\r'

/-- Reads one escape after its backslash: the characters it denotes (a line end denotes none) and
what follows it. -/
def readEscape? : List Char → Option (List Char × List Char)
  | 'n' :: rest => some (['\n'], rest)
  | 'r' :: rest => some (['\r'], rest)
  | 't' :: rest => some (['\t'], rest)
  | '\\' :: rest => some (['\\'], rest)
  | '0' :: rest => some (['\x00'], rest)
  | '\'' :: rest => some (['\''], rest)
  | '"' :: rest => some (['"'], rest)
  | 'x' :: a :: b :: rest =>
    match hexValue? a, hexValue? b with
    | some x, some y => some ([Char.ofNat (x * 16 + y)], rest)
    | _, _ => none
  | 'u' :: '{' :: rest => (codeOf rest 0 0).map fun (c, rest) => ([c], rest)
  | '\n' :: rest => some ([], dropBlanks rest)
  | '\r' :: rest => some ([], dropBlanks rest)
  | _ => none

/-- Reads the text after an opening quote up to the closing quote, each step using up one unit of
fuel. -/
def readCooked : Nat → List Char → Option (List Char)
  | 0, _ => none
  | _ + 1, [] => none
  | _ + 1, '"' :: _ => some []
  | fuel + 1, '\\' :: cs =>
    match readEscape? cs with
    | some (denoted, rest) => (readCooked fuel rest).map (denoted ++ ·)
    | none => none
  | fuel + 1, '\r' :: '\n' :: cs => (readCooked fuel cs).map ('\n' :: ·)
  | fuel + 1, c :: cs => (readCooked fuel cs).map (c :: ·)

/-- Reads the text after the opening quote of a raw literal up to a quote followed by as many
hashes as stood before the opening one. -/
def readRaw (hashes : List Char) : List Char → Option (List Char)
  | [] => none
  | c :: cs =>
    if c = '"' ∧ hashes.isPrefixOf cs then some []
    else (readRaw hashes cs).map (c :: ·)

/-- The text that a literal denotes, if it is a string literal. A suffix is allowed. -/
def stringValue? (literal : String) : Option String :=
  match literal.toList with
  | '"' :: cs => (readCooked (cs.length + 1) cs).map String.ofList
  | 'r' :: cs =>
    match cs.dropWhile (· == '#') with
    | '"' :: body => (readRaw (cs.takeWhile (· == '#')) body).map String.ofList
    | _ => none
  | _ => none

end FormulaBinding.Literal
