import FormulaBinding.Grammar.Parser

/-! # Where the grammar refers to itself

The rules of the grammar are plain definitions over a reader of nonterminals; the reader itself
applies the rules again, with less fuel. -/
namespace FormulaBinding.Grammar

/-- How tightly an operator binds, from loose to tight. -/
inductive Precedence where
  | jump | assign | range | or | and | allow | compare | bitOr | bitXor | bitAnd | shift | sum
  | product | cast | unary | unambiguous
  deriving DecidableEq, Repr

def Precedence.rank (p : Precedence) : Nat := p.ctorIdx

/-- The phrases that contain phrases of their own or of an earlier kind. -/
inductive Nonterminal where
  /-- A type; `plus` says whether bounds may be added to it. -/
  | type (plus : Bool)
  /-- A bound; `captures` and `conditional` allow the kinds of bounds that only some places have. -/
  | bound (captures conditional : Bool)
  /-- An expression; `braces` says whether a record may start with a brace after its path. -/
  | expr (braces : Bool)
  /-- An operand with its prefix operators. -/
  | unary (braces : Bool)
  /-- The operators after the last phrase that bind at least as tightly as the precedence. -/
  | operators (braces : Bool) (base : Precedence)
  /-- An expression that ends early where a block ends a statement. -/
  | early
  /-- A pattern without alternatives. -/
  | pattern
  /-- A pattern with alternatives. -/
  | alternatives
  /-- The statements of a block. -/
  | statements
  /-- A declaration. -/
  | item
  /-- A tree of imported names; `rooted` allows a leading double colon inside. It returns through
  the cursor's row. -/
  | useTree (rooted : Bool)

abbrev Reader := Nonterminal → Parser Unit

end FormulaBinding.Grammar
