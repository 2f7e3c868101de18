import FormulaBinding.Token.Basic

/-! # Phrases

A phrase is what the grammar makes of tokens: a token by itself, a group whose content is made of
phrases, or phrases in a row that play one role together. A phrase has a token list, in which every
operator is joined and every other character stands alone. -/
namespace FormulaBinding

/-- The roles of phrases. -/
inductive Kind where
  -- paths
  | path | simplePath | segment | qualifiedPath | genericArguments | callArguments
  | lifetimeArgument | typeArgument | constArgument | binding | constraint
  -- types
  | pathType | macroType | tupleType | parenType | referenceType | pointerType | arrayType
  | sliceType | functionType | neverType | inferredType | boundsType | dynamicType | verbatimType
  | functionParameter | variadic | returnType | foreignInterface
  -- bounds
  | traitBound | lifetimeBound | capture | verbatimBound | forLifetimes
  -- expressions
  | literalExpr | pathExpr | macroExpr | recordExpr | callExpr | methodExpr | fieldExpr | indexExpr
  | tryExpr | awaitExpr | unaryExpr | referenceExpr | addressExpr | binaryExpr | comparisonExpr
  | compoundAssignExpr | assignExpr | rangeExpr | castExpr | parenExpr | tupleExpr | arrayExpr
  | repeatExpr | blockExpr | unsafeExpr | constExpr | asyncExpr | tryBlockExpr | ifExpr | whileExpr
  | forExpr | loopExpr | matchExpr | closureExpr | letExpr | breakExpr | continueExpr | returnExpr
  | yieldExpr | becomeExpr | inferredExpr | builtinExpr | arm | fieldValue
  -- patterns
  | namePattern | restPattern | openRangePattern | pattern | verbatimPattern
  -- statements
  | block | letStatement | initializer | itemStatement | expressionStatement | macroStatement
  | emptyStatement
  -- declarations
  | innerAttribute | outerAttribute | visibility | generics | genericParameter | whereClause
  | predicate | signature | itemName | receiver | parameter | functionModifier
  | useTree | useGroup | useRename | useName | useGlob
  | constItem | staticItem | enumItem | externCrateItem | functionItem | foreignItem | implItem
  | macroItem | moduleItem | structItem | traitItem | traitAliasItem | typeItem | unionItem
  | useItem | verbatimItem | supertraits | fields | field | variant
  deriving DecidableEq, Repr, Inhabited

/-- A phrase. -/
inductive Phrase where
  | token (t : Token)
  | group (delimiter : Delimiter) (parts : List Phrase) (opens closes : Extent)
  | node (kind : Kind) (parts : List Phrase)
  deriving Inhabited

namespace Phrase

mutual

def tokens : Phrase → List Token
  | token t => [t]
  | group d parts o c => [.group d (tokensList parts) o c]
  | node _ parts => tokensList parts

def tokensList : List Phrase → List Token
  | [] => []
  | p :: ps => tokens p ++ tokensList ps

end

def kind? : Phrase → Option Kind
  | node k _ => some k
  | _ => none

def is (k : Kind) (p : Phrase) : Bool := p.kind? == some k

def parts : Phrase → List Phrase
  | token _ => []
  | group _ ps _ _ => ps
  | node _ ps => ps

def children (k : Kind) (p : Phrase) : List Phrase := p.parts.filter (is k)

/-- The first phrase of one role directly inside. -/
def child? (k : Kind) (p : Phrase) : Option Phrase := p.parts.find? (is k)

/-- The content of the first group with the given delimiter directly inside. -/
def groupParts? (d : Delimiter) (p : Phrase) : Option (List Phrase) :=
  p.parts.findSome? fun
    | group e ps _ _ => if e = d then some ps else none
    | _ => none

def word? : Phrase → Option String
  | token (.name text _) => some text
  | _ => none

def isWord (w : String) (p : Phrase) : Bool := p.word? == some w

/-- Whether a keyword stands directly inside. -/
def hasWord (w : String) (p : Phrase) : Bool := p.parts.any (isWord w)

def isMark (c : Char) : Phrase → Bool
  | token (.mark d _ _) => c == d
  | _ => false

/-- Whether a punctuation character stands directly inside. -/
def hasMark (c : Char) (p : Phrase) : Bool := p.parts.any (isMark c)

def ownParts (p : Phrase) : List Phrase :=
  p.parts.filter fun q => !q.is .outerAttribute && !q.is .innerAttribute

def rolesOf (ps : List Phrase) : List Phrase := ps.filter fun p => p.kind?.isSome

/-- What follows the first occurrence of a punctuation character. -/
def afterMark (c : Char) (ps : List Phrase) : List Phrase :=
  (ps.dropWhile (!isMark c ·)).drop 1

/-- What stands before the first occurrence of a punctuation character. -/
def beforeMark (c : Char) (ps : List Phrase) : List Phrase := ps.takeWhile (!isMark c ·)

def operatorText (ps : List Phrase) : String :=
  String.join (ps.filterMap fun
    | token (.mark c _ _) => some c.toString
    | _ => none)

mutual

def depth : Phrase → Nat
  | token _ => 1
  | group _ parts _ _ => depthList parts + 1
  | node _ parts => depthList parts + 1

def depthList : List Phrase → Nat
  | [] => 0
  | p :: ps => max (depth p) (depthList ps)

end

def text (p : Phrase) : String := Token.textList p.tokens

/-- The tokens of phrases in two rows. -/
theorem tokensList_append (ps qs : List Phrase) :
    tokensList (ps ++ qs) = tokensList ps ++ tokensList qs := by
  induction ps with
  | nil => simp [tokensList]
  | cons p ps ih => simp [tokensList, ih]

end Phrase
end FormulaBinding
