/-! # JSON values

Values and their compact text. The fields of an object keep their order. -/
namespace FormulaBinding

/-- A JSON value. A number is kept as its text. A garbled value has the form of a string, or of an
object with a key, that stands for no text. -/
inductive Json where
  | null
  | bool (b : Bool)
  | number (text : String)
  | string (s : String)
  | array (elements : List Json)
  | object (fields : List (String × Json))
  | garbled
  deriving Inhabited

namespace Json

/-- The two digits of a control character in base sixteen. -/
def controlDigits (n : Nat) : List Char := [Nat.digitChar (n / 16), Nat.digitChar (n % 16)]

/-- A character of a string as it is written: quotes, backslashes and control characters are
escaped. -/
def escapeChar (c : Char) : List Char :=
  if c = '"' then ['\\', '"']
  else if c = '\\' then ['\\', '\\']
  else if c = '\x08' then ['\\', 'b']
  else if c = '\x0c' then ['\\', 'f']
  else if c = '\n' then ['\\', 'n']
  else if c = '\r' then ['\\', 'r']
  else if c = '\t' then ['\\', 't']
  else if c.toNat < 32 then '\\' :: 'u' :: '0' :: '0' :: controlDigits c.toNat
  else [c]

def quote (s : String) : List Char := '"' :: (s.toList.flatMap escapeChar ++ ['"'])

mutual

/-- The compact text of a value; a garbled one has none. -/
def print : Json → List Char
  | null => "null".toList
  | bool true => "true".toList
  | bool false => "false".toList
  | number t => t.toList
  | string s => quote s
  | array js => '[' :: (printElements js ++ [']'])
  | object fs => '{' :: (printFields fs ++ ['}'])
  | garbled => []

/-- The elements of an array with commas between them. -/
def printElements : List Json → List Char
  | [] => []
  | [j] => print j
  | j :: js => print j ++ ',' :: printElements js

/-- The fields of an object with commas between them. -/
def printFields : List (String × Json) → List Char
  | [] => []
  | [(k, j)] => quote k ++ ':' :: print j
  | (k, j) :: fs => quote k ++ ':' :: (print j ++ ',' :: printFields fs)

end

def text (j : Json) : String := String.ofList j.print

end Json
end FormulaBinding
