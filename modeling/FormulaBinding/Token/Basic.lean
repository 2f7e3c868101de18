/-! # Tokens

A text of the host language is a list of tokens; parentheses, brackets and braces enclose the
tokens between them. A punctuation character knows whether the next character belongs to the same
operator, so that `->` is two characters joined together. -/
namespace FormulaBinding

/-- What encloses a group. -/
inductive Delimiter where
  | parenthesis
  | bracket
  | brace
  deriving DecidableEq, Repr, Inhabited

namespace Delimiter

def opening : Delimiter → Char
  | parenthesis => '('
  | bracket => '['
  | brace => '{'

def closing : Delimiter → Char
  | parenthesis => ')'
  | bracket => ']'
  | brace => '}'

def ofOpening? (c : Char) : Option Delimiter :=
  if c = '(' then some parenthesis
  else if c = '[' then some bracket
  else if c = '{' then some brace
  else none

def ofClosing? (c : Char) : Option Delimiter :=
  if c = ')' then some parenthesis
  else if c = ']' then some bracket
  else if c = '}' then some brace
  else none

end Delimiter

/-- A place in a text: the line, counted from one, and the column, counted from zero. -/
structure Position where
  line : Nat
  column : Nat
  deriving DecidableEq, Repr, Inhabited

namespace Position

def start : Position := ⟨1, 0⟩

def next (p : Position) (c : Char) : Position :=
  if c = '\n' then ⟨p.line + 1, 0⟩ else ⟨p.line, p.column + 1⟩

def isBefore (p q : Position) : Bool :=
  p.line < q.line || (p.line == q.line && p.column < q.column)

def advance (p : Position) (cs : List Char) : Position := cs.foldl next p

end Position

/-- A part of a text, from its first character to the one behind its last. -/
structure Extent where
  start : Position
  stop : Position
  deriving DecidableEq, Repr, Inhabited

namespace Extent

def nowhere : Extent := ⟨Position.start, Position.start⟩

def covering (p : Position) (cs : List Char) : Extent := ⟨p, p.advance cs⟩

def join (a b : Extent) : Extent := ⟨a.start, b.stop⟩

/-- The characters of an extent in a text that continues from a place. -/
def charsFrom (e : Extent) (p : Position) : List Char → List Char
  | [] => []
  | c :: cs =>
    if p.isBefore e.start then charsFrom e (p.next c) cs
    else if p.isBefore e.stop then c :: charsFrom e (p.next c) cs
    else []

def textIn (e : Extent) (text : String) : String :=
  String.ofList (e.charsFrom Position.start text.toList)

def shownIn (text : String) (e : Extent) : Position × String := (e.start, e.textIn text)

end Extent

/-- A token. Names keep the `r#` of a raw one, literals and lifetimes are spelled as in the text.
The extents of a group are those of its two delimiters, that of a lifetime is its apostrophe, and
the tokens of a documentation comment have the extent of the comment. -/
inductive Token where
  | name (text : String) (extent : Extent)
  | mark (c : Char) (joined : Bool) (extent : Extent)
  | lifetime (text : String) (extent : Extent)
  | literal (text : String) (extent : Extent)
  | group (delimiter : Delimiter) (body : List Token) (opens closes : Extent)
  deriving Repr, Inhabited

namespace Token

/-- What is shown of a token where something else was expected: of a group, its opening
delimiter. -/
def head : Token → Extent
  | name _ e => e
  | mark _ _ e => e
  | lifetime _ e => e
  | literal _ e => e
  | group _ _ e _ => e

/-- What is shown of a token where nothing was expected: of a group, all of it. -/
def whole : Token → Extent
  | group _ _ opens closes => opens.join closes
  | t => t.head

/-- Whether the next token follows without a blank. -/
def isJoined : Token → Bool
  | mark _ joined _ => joined
  | _ => false

mutual

/-- How many tokens there are, those inside a group included. -/
def size : Token → Nat
  | group _ body _ _ => sizeList body + 1
  | _ => 1

/-- How many tokens there are in a list, those inside groups included. -/
def sizeList : List Token → Nat
  | [] => 0
  | t :: ts => size t + sizeList ts

end

mutual

/-- The text of a token. A brace keeps blanks inside, the other delimiters do not. -/
def text : Token → String
  | name t _ => t
  | mark c _ _ => c.toString
  | lifetime t _ => t
  | literal t _ => t
  | group .parenthesis body _ _ => "(" ++ textList body ++ ")"
  | group .bracket body _ _ => "[" ++ textList body ++ "]"
  | group .brace [] _ _ => "\x7b \x7d"
  | group .brace body _ _ => "\x7b " ++ textList body ++ " \x7d"

/-- The text of a token list: one blank between tokens, none after a joined character. -/
def textList : List Token → String
  | [] => ""
  | [t] => text t
  | t :: ts => text t ++ (if t.isJoined then "" else " ") ++ textList ts

end

mutual

/-- The words of a token: a group contributes its delimiters and the words between them. -/
def words : Token → List String
  | name t _ => [t]
  | mark c _ _ => [c.toString]
  | lifetime t _ => [t]
  | literal t _ => [t]
  | group d body _ _ => d.opening.toString :: (wordsList body ++ [d.closing.toString])

def wordsList : List Token → List String
  | [] => []
  | t :: ts => words t ++ wordsList ts

end

/-- A token list with one blank between any two words. -/
def spacedText (ts : List Token) : String := String.intercalate " " (wordsList ts)

/-- The size of two lists in a row. -/
theorem sizeList_append (ts us : List Token) :
    sizeList (ts ++ us) = sizeList ts + sizeList us := by
  induction ts with
  | nil => simp [sizeList]
  | cons t ts ih => simp [sizeList, ih, Nat.add_assoc]

end Token
end FormulaBinding
