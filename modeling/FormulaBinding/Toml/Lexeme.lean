import FormulaBinding.Toml.Basic

/-! # Lexemes of TOML

A text is cut into lexemes, which are never empty and together make up the text again. A word is
whatever is none of the other lexemes, with the quotes in it, if there are any behind its first
character. -/
namespace FormulaBinding.Toml

/-- What a lexeme is. -/
inductive Kind where
  | dot
  | equals
  | comma
  | openBracket
  | closeBracket
  | openBrace
  | closeBrace
  | blanks
  | comment
  | lineEnd
  | quoted (quote : Char) (long : Bool)
  | word
  deriving DecidableEq, Repr, Inhabited

/-- A lexeme with its place. -/
structure Lexeme where
  kind : Kind
  offset : Nat
  chars : List Char
  deriving Repr, Inhabited

namespace Lexeme

def stop (l : Lexeme) : Nat := l.offset + l.chars.length

def span (l : Lexeme) : Span := ⟨l.offset, l.stop⟩

/-- Whether a lexeme can belong to a value that is not quoted. -/
def isPlain (l : Lexeme) : Bool := l.kind == .dot || l.kind == .word

/-- Whether a lexeme says something: neither blanks nor a comment nor a line end. -/
def isTelling (l : Lexeme) : Bool :=
  l.kind != .blanks && l.kind != .comment && l.kind != .lineEnd

/-- A fault in a lexeme, between the characters at the given distances from its beginning. -/
def fault {α : Type} (l : Lexeme) (start stop : Nat) (complaint : String) : Except Fault α :=
  .error ⟨⟨l.offset + start, l.offset + stop⟩, complaint⟩

end Lexeme

/-- The length of a text in quotes behind its opening quote. In double quotes a backslash protects a
quote or a backslash behind it. The text ends at its line's end at the latest. -/
def quotedLength (quote : Char) : List Char → Nat
  | [] => 0
  | c :: cs =>
    if c = quote then 1
    else if c = '\n' then 0
    else
      match c, quote, cs with
      | '\\', '"', '"' :: ds => 2 + quotedLength quote ds
      | '\\', '"', '\\' :: ds => 2 + quotedLength quote ds
      | _, _, cs => 1 + quotedLength quote cs

/-- How often a character stands at the beginning of a text. -/
def runLength (c : Char) (cs : List Char) : Nat := (cs.takeWhile (· == c)).length

/-- The length of a text over several lines behind its three opening quotes. Up to two quotes may
stand in front of the closing ones. -/
def longLength (quote : Char) : List Char → Nat
  | [] => 0
  | c :: cs =>
    if c = quote ∧ 3 ≤ runLength quote (c :: cs) then min 5 (runLength quote (c :: cs))
    else
      match c, quote, cs with
      | '\\', '"', '"' :: ds => 2 + longLength quote ds
      | '\\', '"', '\\' :: ds => 2 + longLength quote ds
      | _, _, cs => 1 + longLength quote cs

def endsWord (c : Char) : Bool := ".=,[]\x7b\x7d# \t\r\n".contains c

def isBlank (c : Char) : Bool := c == ' ' || c == '\t'

/-- The kind of the first lexeme of a text that begins with the given character, and how many
characters of the rest belong to it. -/
def firstLexeme (c : Char) (cs : List Char) : Kind × Nat :=
  match c with
  | '.' => (.dot, 0)
  | '=' => (.equals, 0)
  | ',' => (.comma, 0)
  | '[' => (.openBracket, 0)
  | ']' => (.closeBracket, 0)
  | '{' => (.openBrace, 0)
  | '}' => (.closeBrace, 0)
  | '\n' => (.lineEnd, 0)
  | '\r' => (.lineEnd, if cs.head? = some '\n' then 1 else 0)
  | '#' => (.comment, (cs.takeWhile fun d => d != '\n' && d != '\r').length)
  | _ =>
    if isBlank c then (.blanks, (cs.takeWhile isBlank).length)
    else if c = '"' ∨ c = '\'' then
      if 2 ≤ runLength c cs then (.quoted c true, 2 + longLength c (cs.drop 2))
      else (.quoted c false, quotedLength c cs)
    else (.word, (cs.takeWhile (!endsWord ·)).length)

def lexemesFrom (offset : Nat) : List Char → List Lexeme
  | [] => []
  | c :: cs =>
    let (kind, more) := firstLexeme c cs
    let chars := c :: cs.take more
    ⟨kind, offset, chars⟩ :: lexemesFrom (offset + chars.length) (cs.drop more)
  termination_by cs => cs.length
  decreasing_by simp only [List.length_drop, List.length_cons]; omega

/-- The lexemes of a text. A mark of byte order at its beginning does not count. -/
def lexemes : List Char → List Lexeme
  | c :: cs => if c = Char.ofNat 0xfeff then lexemesFrom 1 cs else lexemesFrom 0 (c :: cs)
  | [] => []

end FormulaBinding.Toml
