import FormulaBinding.Token.Literal
import FormulaBinding.Token.Basic

/-! # Making tokens

Tokens that stand in no text. -/
namespace FormulaBinding.Token

def names (ns : List String) : List Token := ns.map (.name · Extent.nowhere)

def ident (n : String) : List Token := [.name n Extent.nowhere]

/-- The characters of an operator, each joined to the next. -/
def markList : List Char → List Token
  | [] => []
  | [c] => [.mark c false Extent.nowhere]
  | c :: cs => .mark c true Extent.nowhere :: markList cs

def op (s : String) : List Token := markList s.toList

def quoted (s : String) : List Token := [.literal (Literal.quote s) Extent.nowhere]

def grouped (d : Delimiter) (ts : List Token) : List Token :=
  [.group d ts Extent.nowhere Extent.nowhere]

def inParens (ts : List Token) : List Token := grouped .parenthesis ts

def inBrackets (ts : List Token) : List Token := grouped .bracket ts

def inBraces (ts : List Token) : List Token := grouped .brace ts

def commaSeparated : List (List Token) → List Token
  | [] => []
  | [ts] => ts
  | ts :: rest => ts ++ op "," ++ commaSeparated rest

end FormulaBinding.Token
