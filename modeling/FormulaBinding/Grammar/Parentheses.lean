import FormulaBinding.Grammar.Surroundings

/-! # Parentheses

A phrase is read more freely than it may be written: behind a closure, a jump or a range an operator
can be met that belongs to something further out, and attributes can stand in front of a range. Here
such operands are put into parentheses, so that the text of a phrase is read as that phrase. Nothing
else changes: without the new parentheses the tokens are what they were. -/
namespace FormulaBinding.Grammar
open Phrase (operatorText)

/-- An expression in parentheses that stand in no text. -/
def enclose (p : Phrase) : Phrase :=
  .node .parenExpr [.group .parenthesis [p] Extent.nowhere Extent.nowhere]

/-! ## Operands

The rules are plain definitions over a function `write` that writes the phrases inside, each in its
surroundings. -/

variable (write : Surroundings → Phrase → Phrase) (depth : Nat)

def writeOperand (s : Surroundings) (enclosed : Bool) (p : Phrase) : Phrase :=
  if enclosed then enclose (write {} p) else write s p

/-- Writes an operand in front of something, in parentheses if it is too loose. -/
def operandInFront (s : Surroundings) (isLoose : Precedence → Bool) (p : Phrase) : Phrase :=
  writeOperand write s (isLoose (s.precedenceInFront (meeting depth) p)) p

/-- Writes an operand behind an operator, in parentheses if it is too loose. -/
def operandBehind (s : Surroundings) (isLoose : Precedence → Bool) (p : Phrase) : Phrase :=
  writeOperand write s (isLoose (s.precedenceBehind (meeting depth) p)) p

/-- Whether an expression is as loose as an operator, or looser. -/
def isUpTo (o p : Precedence) : Bool := p.rank ≤ o.rank

/-- Whether an expression is looser than an operator. -/
def isBelow (o p : Precedence) : Bool := p.rank < o.rank

def selectsName (p : Phrase) : Bool :=
  p.is .fieldExpr && p.ownParts.getLast?.any fun
    | .token (.name _ _) => true
    | _ => false

def operandStarts : List String := ["-", "*", "&&", "||", "&", "|", "<<", "<"]

/-- Operators that may also stand in front of the arguments of a path. -/
def argumentStarts : List String := ["<<", "<"]

/-- How the operands of an expression are written: those it starts with, and those behind a mark or
a keyword. -/
def operandRules (s : Surroundings) (p : Phrase) : (Phrase → Phrase) × (Phrase → Phrase) :=
  let alone := write {}
  let front (o : Precedence) (startsOperand : Bool) :=
    operandInFront write depth (s.inFront o startsOperand false)
  let dot := operandInFront write depth s.inFrontOfDot (isBelow .unambiguous)
  let prefixed (o : Precedence) := operandBehind write depth (s.behind o false false) (isBelow o)
  match p.kind? with
  | some .assignExpr => (front .assign false (isUpTo .range), write (s.behind .assign false false))
  | some .binaryExpr | some .comparisonExpr | some .compoundAssignExpr =>
    let text := operatorText p.ownParts
    let o := operatorPrecedence p
    let left := operandInFront write depth
      (s.inFront o (operandStarts.contains text) (argumentStarts.contains text))
    let right := s.behind o false false
    if o == .assign then (left (isUpTo .range), write right)
    else (left (if o == .compare then isUpTo o else isBelow o),
      operandBehind write depth right (isUpTo o))
  | some .castExpr => (front .cast false (isBelow .cast), alone)
  | some .rangeExpr =>
    (front .range true (isUpTo .range),
      operandBehind write depth (s.behind .range false true) (isUpTo .range))
  | some .addressExpr | some .referenceExpr | some .unaryExpr => (alone, prefixed .unary)
  | some .letExpr => (alone, prefixed .allow)
  | some .awaitExpr | some .fieldExpr | some .methodExpr | some .tryExpr => (dot, alone)
  | some .callExpr =>
    (fun f => operandInFront write depth (s.inFront .unambiguous true false)
      (fun o => if f.is .fieldExpr then selectsName f else isBelow .unambiguous o) f, alone)
  | some .indexExpr => (front .unambiguous true (isBelow .unambiguous), alone)
  | some .breakExpr =>
    let named := p.ownParts.any isLifetime
    (alone, fun v => writeOperand write (s.behind .jump true true)
      (!named && startsWithLabel depth v) v)
  | some .returnExpr | some .yieldExpr => (alone, write (s.behind .jump true false))
  | some .closureExpr => (alone, write (s.behind .jump false false))
  | some .ifExpr | some .whileExpr | some .forExpr | some .matchExpr =>
    (write .ofCondition, write .ofCondition)
  | some .arm => (alone, write .ofArm)
  | some .expressionStatement => (write .ofStatement, alone)
  | _ => (alone, alone)

def splitOperands (k : Kind) (parts : List Phrase) : List Phrase × List Phrase :=
  parts.span fun q => if k == .letExpr || k == .arm then !q.isMark '=' else q.kind?.isSome

def writeOperands (s : Surroundings) (p : Phrase) (k : Kind) (parts : List Phrase) :
    List Phrase :=
  let (front, behind) := operandRules write depth s p
  let (first, others) := splitOperands k parts
  first.map front ++ others.map behind

/-- Expressions with an operator between or behind their operands: attributes in front of one would
be read as those of its first operand. -/
def splittableKinds : List Kind :=
  [.assignExpr, .binaryExpr, .comparisonExpr, .compoundAssignExpr, .castExpr, .rangeExpr]

def writeInside (s : Surroundings) : Phrase → Phrase
  | .token t => .token t
  | .group d parts o c => .group d (parts.map (write {})) o c
  | .node k parts =>
    let attributes := (parts.filter (Phrase.is .outerAttribute)).map (write {})
    let own := parts.filter (!Phrase.is .outerAttribute ·)
    let p := Phrase.node k parts
    if splittableKinds.contains k && !attributes.isEmpty then
      .node .parenExpr (attributes ++
        (enclose (.node k (writeOperands write depth {} p k own))).parts)
    else .node k (attributes ++ writeOperands write depth s p k own)

def writeIn (s : Surroundings) (p : Phrase) : Phrase :=
  if s.encloses p then enclose (writeInside write depth {} p) else writeInside write depth s p

def writeTo : Nat → Surroundings → Phrase → Phrase
  | 0, _, p => p
  | n + 1, s, p => writeIn (writeTo n) n s p

/-- A phrase that stands alone, with the parentheses that its operands need. -/
def written (p : Phrase) : Phrase := writeTo p.depth {} p

end FormulaBinding.Grammar
