import FormulaBinding.Text.Blank
import FormulaBinding.Text.Name
import FormulaBinding.Token.Basic
import FormulaBinding.Token.Literal

/-! # From text to tokens

The scanners below say how many characters a token takes; the lexer cuts the text accordingly and
nests the groups. Comments and blanks separate tokens; documentation comments become attributes. -/
namespace FormulaBinding.Lexer

/-- The length of a plain identifier at the start of a text, zero if there is none. -/
def plainNameLength : List Char → Nat
  | [] => 0
  | c :: cs =>
    if Text.isNameStart c then (cs.takeWhile Text.isNameContinue).length + 1 else 0

def neverRaw : List String := ["_", "super", "self", "Self", "crate"]

def anyNameLength? (cs : List Char) : Option Nat :=
  match cs with
  | 'r' :: '#' :: rest =>
    let n := plainNameLength rest
    if n = 0 ∨ String.ofList (rest.take n) ∈ neverRaw then none else some (n + 2)
  | _ =>
    let n := plainNameLength cs
    if n = 0 then none else some n

/-- How a literal that is not a plain identifier may begin. -/
def literalStarts : List (List Char) :=
  ["r\"", "r#\"", "r##", "b\"", "b'", "br\"", "br#", "c\"", "cr\"", "cr#"].map String.toList

/-- The length of an identifier token; the beginning of a literal is not one. -/
def nameLength? (cs : List Char) : Option Nat :=
  if literalStarts.any (·.isPrefixOf cs) then none else anyNameLength? cs

/-- The kinds of quoted literals: text, bytes, and text for a foreign language. -/
inductive Quoted where
  | text
  | bytes
  | foreign
  deriving DecidableEq

/-- Whether a character is a hexadecimal digit. -/
def isHex (c : Char) : Bool := (Literal.hexValue? c).isSome

def twoDigits (kind : Quoted) (a b : Char) : Bool :=
  match kind with
  | .text => '0' ≤ a && a ≤ '7' && isHex b
  | .bytes => isHex a && isHex b
  | .foreign => isHex a && isHex b && !(a == '0' && b == '0')

/-- The value and the length of a `\u` escape after its opening brace: one to six digits, with
underscores after the first. -/
def codeLength? : List Char → Nat → Nat → Option (Nat × Nat)
  | [], _, _ => none
  | c :: cs, value, digits =>
    if c = '_' ∧ 0 < digits then (codeLength? cs value digits).map fun (v, n) => (v, n + 1)
    else if c = '}' ∧ 0 < digits then
      if value.isValidChar then some (value, 1) else none
    else
      match Literal.hexValue? c with
      | some v =>
        if digits = 6 then none
        else (codeLength? cs (value * 16 + v) (digits + 1)).map fun (v, n) => (v, n + 1)
      | none => none

/-- The length of the blanks after a line end in a literal. A carriage return has to be followed by
a line feed, and something has to follow the blanks. -/
def continuationLength? : List Char → Bool → Option Nat
  | [], _ => none
  | c :: cs, afterReturn =>
    if afterReturn then
      if c = '\n' then (continuationLength? cs false).map (· + 1) else none
    else if c = ' ' ∨ c = '\t' ∨ c = '\n' then (continuationLength? cs false).map (· + 1)
    else if c = '\r' then (continuationLength? cs true).map (· + 1)
    else some 0

def escapeLength? (kind : Quoted) : List Char → Option Nat
  | 'x' :: a :: b :: _ => if twoDigits kind a b then some 3 else none
  | 'u' :: '{' :: cs =>
    if kind = .bytes then none
    else
      match codeLength? cs 0 0 with
      | some (value, n) => if kind = .foreign ∧ value = 0 then none else some (n + 2)
      | none => none
  | '\n' :: cs => (continuationLength? cs false).map (· + 1)
  | '\r' :: cs => (continuationLength? cs true).map (· + 1)
  | '0' :: _ => if kind = .foreign then none else some 1
  | c :: _ => if c ∈ ['n', 'r', 't', '\\', '\'', '"'] then some 1 else none
  | [] => none

/-- Whether a character may stand for itself in a literal of the kind. -/
def isPlain (kind : Quoted) (c : Char) : Bool :=
  match kind with
  | .text => true
  | .bytes => c.toNat < 128
  | .foreign => c != '\x00'

/-- The length of a quoted literal after its opening quote, the closing quote included. -/
def quotedLength? (kind : Quoted) : List Char → Option Nat
  | [] => none
  | '"' :: _ => some 1
  | '\r' :: '\n' :: cs => (quotedLength? kind cs).map (· + 2)
  | '\r' :: _ => none
  | '\\' :: cs =>
    match escapeLength? kind cs with
    | some n => (quotedLength? kind (cs.drop n)).map (· + n + 1)
    | none => none
  | c :: cs => if isPlain kind c then (quotedLength? kind cs).map (· + 1) else none
  termination_by cs => cs.length
  decreasing_by all_goals simp only [List.length_drop, List.length_cons]; omega

/-- The length of a raw literal after its opening quote, up to a quote followed by the hashes. -/
def rawLength? (kind : Quoted) (hashes : List Char) : List Char → Option Nat
  | [] => none
  | '\r' :: '\n' :: cs => (rawLength? kind hashes cs).map (· + 2)
  | '\r' :: _ => none
  | c :: cs =>
    if c = '"' ∧ hashes.isPrefixOf cs then some (hashes.length + 1)
    else if isPlain kind c then (rawLength? kind hashes cs).map (· + 1)
    else none

def hashedLength? (kind : Quoted) (cs : List Char) : Option Nat :=
  let hashes := cs.takeWhile (· == '#')
  match cs.drop hashes.length with
  | '"' :: body =>
    if 255 < hashes.length then none
    else (rawLength? kind hashes body).map (· + hashes.length + 1)
  | _ => none

/-- The length of a character between single quotes, after the opening one. -/
def singleLength? (kind : Quoted) : List Char → Option Nat
  | '\\' :: cs =>
    match cs with
    | '\n' :: _ => none
    | '\r' :: _ => none
    | _ =>
      match escapeLength? kind cs with
      | some n => if cs[n]? = some '\'' then some (n + 2) else none
      | none => none
  | c :: '\'' :: _ => if kind = .bytes ∧ 128 ≤ c.toNat then none else some 2
  | _ => none

/-- Whether an identifier may start here; a number must not run into one. -/
def startsName (cs : List Char) : Bool := cs.head?.any Text.isNameStart

/-- The length of a number with its suffix, unless it runs into further identifier characters. -/
def suffixed? (cs : List Char) (n : Nat) : Option Nat :=
  let total := n + plainNameLength (cs.drop n)
  if (cs.drop total).head?.any Text.isNameContinue then none else some total

def exponentLength? (cs : List Char) : Option Nat :=
  let lead := (cs.takeWhile (· == '_')).length
  let rest := cs.drop lead
  let signed := match rest with
    | '+' :: _ => 1
    | '-' :: _ => 1
    | _ => 0
  let digits := (rest.drop signed).takeWhile fun c => c.isDigit || c == '_'
  if digits.any Char.isDigit then some (lead + signed + digits.length) else none

/-- The length of the digits of a number with a fraction or an exponent. -/
def fractionLength? (cs : List Char) : Option Nat :=
  match cs with
  | [] => none
  | first :: _ =>
    if !first.isDigit then none
    else
      let whole := (cs.takeWhile fun c => c.isDigit || c == '_').length
      match cs.drop whole with
      | '.' :: rest =>
        if rest.head? = some '.' ∨ startsName rest then none
        else
          let n := whole + 1 + (rest.takeWhile fun c => c.isDigit || c == '_').length
          match cs.drop n with
          | e :: rest =>
            if e = 'e' ∨ e = 'E' then
              match exponentLength? rest with
              | some k => some (n + 1 + k)
              | none => some n
            else some n
          | [] => some n
      | e :: rest =>
        if e = 'e' ∨ e = 'E' then (exponentLength? rest).map (whole + 1 + ·) else none
      | [] => none

/-- The length of the digits of a whole number in the given base, with `seen` telling whether a
digit came before. -/
def wholeDigits? (base : Nat) : List Char → Bool → Option Nat
  | [], seen => if seen then some 0 else none
  | c :: cs, seen =>
    if c = '_' then
      if !seen && base == 10 then none else (wholeDigits? base cs seen).map (· + 1)
    else
      match Literal.hexValue? c with
      | some v =>
        if v < base then (wholeDigits? base cs true).map (· + 1)
        else if v < 10 then none
        else if seen then some 0 else none
      | none => if seen then some 0 else none

def wholeLength? : List Char → Option Nat
  | '0' :: 'x' :: cs => (wholeDigits? 16 cs false).map (· + 2)
  | '0' :: 'o' :: cs => (wholeDigits? 8 cs false).map (· + 2)
  | '0' :: 'b' :: cs => (wholeDigits? 2 cs false).map (· + 2)
  | cs => wholeDigits? 10 cs false

def numberLength? (cs : List Char) : Option Nat :=
  match (fractionLength? cs).bind (suffixed? cs) with
  | some n => some n
  | none => (wholeLength? cs).bind (suffixed? cs)

/-- Adds the opening characters and the suffix to the length of a quoted literal. -/
def closeLiteral (cs : List Char) (opening : Nat) (n : Nat) : Nat :=
  opening + n + plainNameLength (cs.drop (opening + n))

def literalLength? (cs : List Char) : Option Nat :=
  match cs with
  | '"' :: rest => (quotedLength? .text rest).map (closeLiteral cs 1)
  | '\'' :: rest => (singleLength? .text rest).map (closeLiteral cs 1)
  | 'r' :: rest => (hashedLength? .text rest).map (closeLiteral cs 1)
  | 'b' :: '"' :: rest => (quotedLength? .bytes rest).map (closeLiteral cs 2)
  | 'b' :: 'r' :: rest => (hashedLength? .bytes rest).map (closeLiteral cs 2)
  | 'b' :: '\'' :: rest => (singleLength? .bytes rest).map (closeLiteral cs 2)
  | 'c' :: '"' :: rest => (quotedLength? .foreign rest).map (closeLiteral cs 2)
  | 'c' :: 'r' :: rest => (hashedLength? .foreign rest).map (closeLiteral cs 2)
  | _ => numberLength? cs

def marks : List Char := "~!@#$%^&*-=+|;:,<.>/?'".toList

def startsComment : List Char → Bool
  | '/' :: '/' :: _ => true
  | '/' :: '*' :: _ => true
  | _ => false

/-- Whether a punctuation character starts here. -/
def startsMark (cs : List Char) : Bool :=
  !startsComment cs && cs.head?.any (· ∈ marks)

def lifetimeLength? (cs : List Char) : Option Nat :=
  match anyNameLength? cs with
  | none => none
  | some n =>
    match cs.drop n with
    | '\'' :: _ => none
    | '#' :: _ => if "r#".toList.isPrefixOf cs then some n else none
    | _ => some n

/-- The token that an apostrophe starts, and its length: a lifetime, or the apostrophe alone where
a literal begins with what would be the name of the lifetime. -/
def apostrophe? (rest : List Char) (p : Position) : Option (Token × Nat) :=
  let extent := Extent.covering p ['\'']
  (lifetimeLength? rest).map fun n =>
    if nameLength? rest = none then (.mark '\'' true extent, 1)
    else (.lifetime (String.ofList ('\'' :: rest.take n)) extent, n + 1)

def faultyLiteral : List Char := "(/*ERROR*/)".toList

def leaf? (cs : List Char) (p : Position) : Option (Token × Nat) :=
  let covered (n : Nat) : String × Extent :=
    (String.ofList (cs.take n), Extent.covering p (cs.take n))
  let literal (n : Nat) : Token × Nat := (.literal (covered n).1 (covered n).2, n)
  match literalLength? cs with
  | some n => some (literal n)
  | none =>
    if startsMark cs then
      match cs with
      | '\'' :: rest => apostrophe? rest p
      | c :: rest => some (.mark c (startsMark rest) (Extent.covering p [c]), 1)
      | [] => none
    else
      match nameLength? cs with
      | some n => some (.name (covered n).1 (covered n).2, n)
      | none =>
        if faultyLiteral.isPrefixOf cs then some (literal faultyLiteral.length) else none

/-- The length of a line up to its end, and how many of these characters belong to the line end. -/
def lineLength : List Char → Nat × Nat
  | [] => (0, 0)
  | '\n' :: _ => (0, 0)
  | '\r' :: '\n' :: _ => (1, 1)
  | _ :: cs => ((lineLength cs).1 + 1, (lineLength cs).2)

/-- The length of a block comment from its opening on; block comments nest. -/
def blockLength? : List Char → Nat → Option Nat
  | '/' :: '*' :: cs, depth => (blockLength? cs (depth + 1)).map (· + 2)
  | '*' :: '/' :: cs, depth =>
    if depth ≤ 1 then some 2 else (blockLength? cs (depth - 1)).map (· + 2)
  | _ :: cs, depth => (blockLength? cs depth).map (· + 1)
  | [], _ => none

def hasLoneReturn : List Char → Bool
  | '\r' :: '\n' :: cs => hasLoneReturn cs
  | '\r' :: _ => true
  | _ :: cs => hasLoneReturn cs
  | [] => false

/-- A documentation comment: its text, whether it documents what encloses it, and its length. -/
structure Doc where
  text : List Char
  inner : Bool
  length : Nat

/-- The documentation comment of a line, after its opening characters. -/
def lineDoc (opening : Nat) (inner : Bool) (cs : List Char) : Doc :=
  let (n, ending) := lineLength cs
  ⟨cs.take (n - ending), inner, opening + n⟩

def blockDoc? (inner : Bool) (cs : List Char) : Option Doc :=
  (blockLength? cs 0).map fun n => ⟨(cs.take (n - 2)).drop 3, inner, n⟩

/-- The documentation comment that starts a text. -/
def doc? (cs : List Char) : Option Doc :=
  let found := match cs with
    | '/' :: '/' :: '!' :: rest => some (lineDoc 3 true rest)
    | '/' :: '*' :: '!' :: _ => blockDoc? true cs
    | '/' :: '/' :: '/' :: '/' :: _ => none
    | '/' :: '/' :: '/' :: rest => some (lineDoc 3 false rest)
    | '/' :: '*' :: '*' :: '*' :: _ => none
    | '/' :: '*' :: '*' :: _ => blockDoc? false cs
    | _ => none
  found.filter fun doc => !hasLoneReturn doc.text

/-- The tokens of a documentation comment: an attribute named `doc`. -/
def Doc.tokens (doc : Doc) (e : Extent) : List Token :=
  let said := Literal.quote (String.ofList doc.text)
  let body := [.name "doc" e, .mark '=' false e, .literal said e]
  if doc.inner then [.mark '#' false e, .mark '!' false e, .group .bracket body e e]
  else [.mark '#' false e, .group .bracket body e e]

/-- Whether a character separates tokens: a blank or a mark of writing direction. -/
def isSpace (c : Char) : Bool :=
  Text.isBlank c || c == Char.ofNat 0x200e || c == Char.ofNat 0x200f

/-- The length of the ordinary comment or the blank that starts a text, zero if there is none. -/
def spaceLength : List Char → Nat
  | [] => 0
  | cs@(c :: rest) =>
    let line := (lineLength cs).1
    match cs with
    | '/' :: '/' :: '/' :: '/' :: _ => line
    | '/' :: '/' :: '/' :: _ => 0
    | '/' :: '/' :: '!' :: _ => 0
    | '/' :: '/' :: _ => line
    | '/' :: '*' :: '*' :: '/' :: _ => 4
    | '/' :: '*' :: '*' :: '*' :: _ => (blockLength? cs 0).getD 0
    | '/' :: '*' :: '*' :: _ => 0
    | '/' :: '*' :: '!' :: _ => 0
    | '/' :: '*' :: _ => (blockLength? cs 0).getD 0
    | _ => if isSpace c then (rest.takeWhile isSpace).length + 1 else 0

/-- A group that is still open: its delimiter, where it opens, and the tokens before it. -/
structure Frame where
  delimiter : Delimiter
  opens : Extent
  before : List Token

def opening? (cs : List Char) : Option Delimiter :=
  if faultyLiteral.isPrefixOf cs then none else cs.head?.bind Delimiter.ofOpening?

/-- Reads all tokens: `done` holds those of the innermost open group, last one first. -/
def run (cs : List Char) (p : Position) (frames : List Frame) (done : List Token) :
    Option (List Token) :=
  match cs with
  | [] =>
    match frames with
    | [] => some done.reverse
    | _ :: _ => none
  | c :: rest =>
    match spaceLength (c :: rest) with
    | n + 1 => run (rest.drop n) (p.advance (c :: rest.take n)) frames done
    | 0 =>
      match doc? (c :: rest) with
      | some doc =>
        let extent := Extent.covering p (c :: rest.take (doc.length - 1))
        run (rest.drop (doc.length - 1)) extent.stop frames
          ((doc.tokens extent).reverse ++ done)
      | none =>
        match opening? (c :: rest) with
        | some d => run rest (p.next c) (⟨d, Extent.covering p [c], done⟩ :: frames) []
        | none =>
          match Delimiter.ofClosing? c with
          | some d =>
            match frames with
            | [] => none
            | frame :: frames =>
              if frame.delimiter = d then
                run rest (p.next c) frames
                  (.group d done.reverse frame.opens (Extent.covering p [c]) :: frame.before)
              else none
          | none =>
            match leaf? (c :: rest) p with
            | some (token, n + 1) =>
              run (rest.drop n) (p.advance (c :: rest.take n)) frames (token :: done)
            | _ => none
  termination_by cs.length
  decreasing_by all_goals simp only [List.length_drop, List.length_cons]; omega

/-- The tokens of a text, after a byte order mark if there is one; nothing if a character starts no
token or a group is left open or closed twice. -/
def tokens? (cs : List Char) : Option (List Token) :=
  match cs with
  | c :: rest =>
    if c = Char.ofNat 0xfeff then run rest (Position.start.next c) [] []
    else run cs Position.start [] []
  | [] => some []

end FormulaBinding.Lexer
