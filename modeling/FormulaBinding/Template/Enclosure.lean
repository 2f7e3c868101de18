import FormulaBinding.Text.Blank
import FormulaBinding.Text.Separator

/-! # Enclosures

An enclosure scheme says which literals surround a placeholder in a template. -/
namespace FormulaBinding

/-- The literals that mark a placeholder: square brackets, curly braces, or two of them. -/
inductive Enclosure where
  | square
  | curly
  | doubleCurly
  deriving DecidableEq, Repr, Inhabited

namespace Enclosure

def left : Enclosure → List Char
  | square => ['[']
  | curly => ['{']
  | doubleCurly => ['{', '{']

/-- The character that ends a placeholder's name, of which the right literal is made. -/
def closer : Enclosure → Char
  | square => ']'
  | curly => '}'
  | doubleCurly => '}'

def right : Enclosure → List Char
  | square => [']']
  | curly => ['}']
  | doubleCurly => ['}', '}']

/-- The name under which a scheme is written down. -/
def name : Enclosure → String
  | square => "square"
  | curly => "curly"
  | doubleCurly => "double_curly"

/-- A scheme's name as it is looked up: trimmed, in ASCII lower case, with underscores. -/
def normalName (text : String) : String :=
  String.ofList ((Text.trim text).toList.map fun c => if c = '-' then '_' else c.toLower)

/-- The scheme of a name; an unknown name means square brackets. -/
def ofName (text : String) : Enclosure :=
  let key := normalName text
  if key = "curly" ∨ key = "curly_braces" ∨ key = "\x7b\x7d" then curly
  else if key = "double_curly" ∨ key = "double_curly_braces" ∨ key = "\x7b\x7b\x7d\x7d" then
    doubleCurly
  else square

/-- A text without the literals around it, or as it is when one of them is missing. -/
def strip (scheme : Enclosure) (raw : String) : String :=
  match (Text.dropStart? scheme.left raw.toList).bind (Text.dropEnd? scheme.right) with
  | some name => String.ofList name
  | none => raw

/-- A literal in a regular expression: brackets and braces are special and escaped. -/
def escaped (literal : List Char) : List Char := literal.flatMap fun c => ['\\', c]

/-- The regular expression of a placeholder: one or more characters other than the closing one
between the two literals. -/
def pattern (scheme : Enclosure) : String :=
  String.ofList (escaped scheme.left ++ "([^".toList ++ escaped [scheme.closer] ++ "]+)".toList ++
    escaped scheme.right)

end Enclosure
end FormulaBinding
