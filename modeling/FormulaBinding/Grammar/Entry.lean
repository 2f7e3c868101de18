import FormulaBinding.Grammar.Item
import FormulaBinding.Grammar.Parentheses
import FormulaBinding.Token.Lexer

/-! # Reading whole texts

The rules of the grammar refer to each other through a reader; here the knot is tied, with fuel
from the number of tokens, and whole texts are read as a name, a path, a type, a file and so on. -/
namespace FormulaBinding.Grammar

def rule (read : Reader) : Reader
  | .type plus => type read plus
  | .bound captures conditional => bound read captures conditional
  | .expr braces => expr read braces
  | .unary braces => unary read braces
  | .operators braces base => operators read braces base
  | .early => early read
  | .pattern => pattern read
  | .alternatives => alternatives read
  | .statements => statements read
  | .item => item read
  | .useTree rooted => useTree read rooted

/-- The reader that applies rules inside rules up to a depth. -/
def reader : Nat → Reader
  | 0, _ => Parser.expected []
  | n + 1, nonterminal => rule (reader n) nonterminal

def depth (ts : List Token) : Nat := 8 * Token.sizeList ts + 64

def readTokens {α : Type} (p : Reader → Parser α) (ts : List Token) :
    Except ParseError (α × List Phrase) :=
  Parser.runAll (p (reader (depth ts))) ts

def tokensOf (text : String) : Except ParseError (List Token) :=
  match Lexer.tokens? text.toList with
  | some ts => .ok ts
  | none => .error { fault := .unreadable }

def readPhrase (p : Reader → Parser Unit) (ts : List Token) : Except ParseError Phrase := do
  let (_, row) ← readTokens p ts
  match row with
  | [phrase] => return written phrase
  | _ => return written (.node .path row)

def readName (text : String) : Except ParseError Phrase := do
  readPhrase (fun _ => Parser.name) (← tokensOf text)

def readPath (text : String) : Except ParseError Phrase := do
  readPhrase (fun read => path read false) (← tokensOf text)

def readType (text : String) : Except ParseError Phrase := do
  readPhrase (fun read => read (.type true)) (← tokensOf text)

/-- An expression in a list of arguments: each side of an assignment stands alone. -/
def writtenArgument : Phrase → Phrase
  | .node .assignExpr sides => .node .assignExpr (sides.map written)
  | p => written p

def readExpressions (ts : List Token) : Except ParseError (List Phrase) := do
  let (_, row) ← readTokens (fun read => Parser.separated "," (read (.expr true))) ts
  return (row.filter (!Phrase.isMark ',' ·)).map writtenArgument

def readTrait (ts : List Token) : Except ParseError Phrase :=
  readPhrase (fun read => traitDeclaration read) ts

/-- Reads a token list as the declarations of a file after its attributes. -/
def readFileTokens (ts : List Token) : Except ParseError (List Phrase) := do
  let (_, row) ← readTokens (fun read => do
    innerAttributes read
    Parser.untilEnd (read .item)) ts
  return row.map written

/-- What follows the blanks and the ordinary comments that start a text. -/
def dropSpace (cs : List Char) : List Char :=
  match Lexer.spaceLength cs with
  | 0 => cs
  | n + 1 =>
    match cs with
    | [] => []
    | _ :: rest => dropSpace (rest.drop n)
  termination_by cs.length
  decreasing_by simp only [List.length_drop, List.length_cons]; omega

/-- A file without the line that names its interpreter. -/
def dropInterpreter (cs : List Char) : List Char :=
  match cs with
  | '#' :: '!' :: rest =>
    if (dropSpace rest).head? = some '[' then cs else cs.dropWhile (· != '\n')
  | _ => cs

def readFile (text : String) : Except ParseError (List Phrase) := do
  let cs := match text.toList with
    | c :: rest => if c = Char.ofNat 0xfeff then rest else c :: rest
    | [] => []
  readFileTokens (← tokensOf (String.ofList (dropInterpreter cs)))

end FormulaBinding.Grammar
