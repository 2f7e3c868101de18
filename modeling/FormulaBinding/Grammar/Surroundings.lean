import FormulaBinding.Grammar.Statement

/-! # Where an expression stands

Whether an operand can be written without parentheses depends on how tightly it binds, on the
operators on its sides, and on whether a statement, an arm or a condition starts or ends with it. An
operand that ends in a closure, a jump or a range is the hard case: the operator behind it is met
inside the operand, which may take it, leave it, or be broken by it. -/
namespace FormulaBinding.Grammar
open Phrase (rolesOf afterMark beforeMark operatorText)

def isAttributed (p : Phrase) : Bool := !(p.children .outerAttribute).isEmpty

def isJump (p : Phrase) : Bool := p.is .breakExpr || p.is .returnExpr || p.is .yieldExpr

/-- Whether an expression is a jump without a value. -/
def isBareJump (p : Phrase) : Bool := isJump p && (rolesOf p.ownParts).isEmpty

def hasLowerEnd (p : Phrase) : Bool := !(rolesOf (beforeMark '.' p.ownParts)).isEmpty

def hasUpperEnd (p : Phrase) : Bool := !(rolesOf (afterMark '.' p.ownParts)).isEmpty

def isLabeled (p : Phrase) : Bool := p.ownParts.head?.any isLifetime

/-- Whether an expression is a block with nothing in front of it and no attributes inside. -/
def isPlainBlock (p : Phrase) : Bool :=
  p.is .blockExpr && !isAttributed p && !isLabeled p &&
    (p.children .block).all fun b =>
      !((b.groupParts? .brace).getD []).any (Phrase.is .innerAttribute)

/-- Whether a statement or an arm ends behind an expression without a mark. -/
def endsWithBlock (p : Phrase) : Bool := p.kind?.any blockKinds.contains

/-- Whether a statement that starts with an expression ends behind it. -/
def endsStatement (p : Phrase) : Bool := if p.is .macroExpr then hasBraces p else endsWithBlock p

def leftOperandKinds : List Kind :=
  [.assignExpr, .awaitExpr, .binaryExpr, .comparisonExpr, .compoundAssignExpr, .callExpr, .castExpr,
    .fieldExpr, .indexExpr, .methodExpr, .rangeExpr, .tryExpr]

/-- Whether the first thing in an expression is the label of a loop or a block. -/
def startsWithLabel : Nat → Phrase → Bool
  | 0, _ => false
  | n + 1, p =>
    let labels := [Kind.blockExpr, .forExpr, .loopExpr, .whileExpr]
    if p.kind?.any labels.contains then isLabeled p
    else p.kind?.any leftOperandKinds.contains && p.ownParts.head?.any (startsWithLabel n)

/-- Whether a type ends in a path to whose last name an angle bracket behind it would belong. -/
def endsInBarePath : Nat → Phrase → Bool
  | 0, _ => false
  | n + 1, p =>
    let transparent := [Kind.pathType, .boundsType, .dynamicType, .traitBound, .path,
      .qualifiedPath, .segment, .callArguments, .returnType, .referenceType, .pointerType,
      .functionType]
    match p.kind?, p.parts.getLast? with
    | some .segment, some (.token _) => true
    | some .traitBound, some (.group _ inside _ _) => inside.getLast?.any (endsInBarePath n)
    | some k, some last => transparent.contains k && endsInBarePath n last
    | _, _ => false

/-- How tightly the operator of an expression binds. -/
def operatorPrecedence (p : Phrase) : Precedence :=
  let text := operatorText p.ownParts
  ((binaryOperators.find? (·.text == text)).map (·.precedence)).getD .unambiguous

/-- How tightly an expression holds together. -/
def precedence (p : Phrase) : Precedence :=
  let tight := if isAttributed p then .unary else .unambiguous
  match p.kind? with
  | some .closureExpr => if (p.child? .returnType).isNone then .jump else tight
  | some .breakExpr | some .returnExpr | some .yieldExpr =>
    if isBareJump p then .unambiguous else .jump
  | some .assignExpr => .assign
  | some .rangeExpr => .range
  | some .binaryExpr | some .comparisonExpr | some .compoundAssignExpr => operatorPrecedence p
  | some .letExpr => .allow
  | some .castExpr => .cast
  | some .addressExpr | some .referenceExpr | some .unaryExpr => .unary
  | some .becomeExpr | some .builtinExpr => .unambiguous
  | _ => tight

/-- What surrounds an expression. Without surroundings it stands alone. -/
structure Surroundings where
  /-- The operator in front of it. -/
  previous : Precedence := .jump
  /-- The operator behind it. -/
  next : Precedence := .jump
  /-- Whether it is a statement, or an operand in front of a dot that starts one. -/
  statement : Bool := false
  /-- Whether a statement starts with it, and goes on behind it. -/
  startsStatement : Bool := false
  /-- Whether it is the body of an arm, or an operand in front of a dot that starts one. -/
  arm : Bool := false
  /-- Whether the body of an arm starts with it, and goes on behind it. -/
  startsArm : Bool := false
  /-- Whether it stands in a condition, where a brace behind a path ends the condition. -/
  condition : Bool := false
  /-- Whether a condition ends with it. -/
  endsCondition : Bool := false
  /-- Whether it starts an operand in a condition that may as well be missing. -/
  startsOptional : Bool := false
  /-- Whether the operator behind it may also be in front of an operand. -/
  nextStartsOperand : Bool := false
  /-- Whether something of the same expression is behind it. -/
  nextContinues : Bool := false
  /-- Whether the operator behind it may also be in front of the arguments of a path. -/
  nextStartsArguments : Bool := false

namespace Surroundings

def ofStatement : Surroundings := { statement := true }

def ofArm : Surroundings := { arm := true }

def ofCondition : Surroundings := { condition := true, endsCondition := true }

def inFront (s : Surroundings) (o : Precedence) (startsOperand startsArguments : Bool) :
    Surroundings :=
  { s with
    next := o
    statement := false
    startsStatement := s.statement || s.startsStatement
    arm := false
    startsArm := s.arm || s.startsArm
    endsCondition := false
    nextStartsOperand := startsOperand
    nextContinues := true
    nextStartsArguments := startsArguments }

/-- An operand in front of a dot or a question mark, which no statement ends before. -/
def inFrontOfDot (s : Surroundings) : Surroundings :=
  { s with
    next := .unambiguous
    statement := s.statement || s.startsStatement
    startsStatement := false
    arm := s.arm || s.startsArm
    startsArm := false
    endsCondition := false
    nextStartsOperand := false
    nextContinues := true
    nextStartsArguments := false }

/-- An operand behind an operator or a keyword. A brace behind a path in a `free` operand is that of
a record even in a condition, and an `optional` operand may be missing. -/
def behind (s : Surroundings) (o : Precedence) (free optional : Bool) : Surroundings :=
  { s with
    previous := o
    statement := false
    startsStatement := false
    arm := false
    startsArm := false
    condition := s.condition && !free
    startsOptional := s.condition && optional }

/-- Whether an expression needs parentheses there, whatever its operands are: it would end a
statement or an arm early, start a declaration, or take the brace behind a condition. -/
def encloses (s : Surroundings) (p : Phrase) : Bool :=
  (s.startsStatement && endsStatement p) ||
    ((s.statement || s.startsStatement) && p.is .letExpr) ||
    (s.startsArm && endsWithBlock p) ||
    (s.condition && p.is .recordExpr) ||
    (s.endsCondition && isBareJump p && !p.is .breakExpr) ||
    (s.endsCondition && !s.condition &&
      ((isBareJump p && p.is .breakExpr) || p.is .pathExpr ||
        (p.is .rangeExpr && !hasUpperEnd p))) ||
    (s.startsOptional && isPlainBlock p)

/-- How tightly an expression holds together there. A jump without a value is loose in front of what
could be its value. What reaches as far as it can is tight where nothing is behind it. A cast is
loose where its type would take what is behind it. -/
def precedence (s : Surroundings) (p : Phrase) : Precedence :=
  let reaches := isJump p || p.is .closureExpr || p.is .letExpr ||
    (p.is .rangeExpr && !hasLowerEnd p)
  if s.nextStartsOperand && isBareJump p then .jump
  else if !s.nextContinues && reaches then .unary
  else if s.nextStartsArguments && p.is .castExpr &&
      p.parts.getLast?.any (fun t => endsInBarePath t.depth t) then .jump
  else Grammar.precedence p

/-- Whether an expression can be read on from the operator in front of it: its own operator binds
tighter. -/
def joinsPrevious (s : Surroundings) (p : Phrase) : Bool :=
  match p.kind? with
  | some .assignExpr | some .compoundAssignExpr => s.previous.rank ≤ Precedence.assign.rank
  | some .binaryExpr | some .comparisonExpr => s.previous.rank < (operatorPrecedence p).rank
  | some .castExpr => s.previous.rank < Precedence.cast.rank
  | some .rangeExpr => !hasLowerEnd p || s.previous.rank < Precedence.assign.rank
  | _ => true

end Surroundings

/-- What becomes of an operator that is met at the end of an operand. -/
inductive Meeting where
  /-- Something inside the operand takes it. -/
  | taken
  /-- The operand ends in front of it. -/
  | left
  /-- It can stand nowhere. -/
  | refused
  deriving DecidableEq

/-- The answer to a meeting that is looked at from outside of an operand. -/
abbrev Meet := Surroundings → Precedence → Phrase → Meeting

namespace Surroundings

/-- How tightly an operand behind an operator holds together: one in which the operator behind it is
not taken is as good as an operand of a prefix. -/
def precedenceBehind (meet : Meet) (s : Surroundings) (p : Phrase) : Precedence :=
  let own := s.precedence p
  let isLoose :=
    if [Precedence.assign, .allow, .unary].contains s.previous then own.rank < s.previous.rank
    else own.rank ≤ s.previous.rank
  let matters := [Precedence.range, .or, .and].contains s.next || !s.nextStartsOperand
  if isLoose && matters && meet s s.previous p != .taken && s.joinsPrevious p then .unary else own

/-- How tightly an operand in front of an operator holds together: one that ends in front of it is
never split. -/
def precedenceInFront (meet : Meet) (s : Surroundings) (p : Phrase) : Precedence :=
  let matters := !s.nextStartsOperand || s.next == .range
  if matters && meet s .jump p == .left && s.joinsPrevious p then .unambiguous else s.precedence p

end Surroundings

/-- What becomes of the operator behind an expression, when the expression is read at the given
strength of the operator in front of it, up to a depth. -/
def meeting : Nat → Meet
  | 0, _, _, _ => .left
  | n + 1, s, base, p =>
    let next := s.next
    let strong := if [Precedence.assign, .compare].contains base then base.rank ≤ next.rank
      else base.rank < next.rank
    let byStrength := if strong || next == .jump then Meeting.taken else .left
    let stuck := if next == .unambiguous then Meeting.refused else .left
    let last := (p.ownParts.getLast?).getD p
    let inside (o : Precedence) (free optional : Bool) (base : Precedence) : Meeting :=
      meeting n (s.behind o free optional) base last
    let strengthInside (o : Precedence) (optional : Bool) : Precedence :=
      (s.behind o false optional).precedenceBehind (meeting n) last
    let jump (free optional : Bool) : Meeting :=
      if inside .jump free optional .jump == .refused then .left else .taken
    let bareJump : Meeting :=
      if next == .assign && Precedence.assign.rank < base.rank then .refused else .taken
    let other : Meeting :=
      if [Precedence.assign, .range].contains next && base == .range then .refused
      else if base == .allow && next.rank < Precedence.allow.rank then .refused
      else byStrength
    if s.encloses p then byStrength
    else
      match p.kind? with
      | some .assignExpr =>
        if isAttributed p then other
        else if inside .assign false false .assign == .refused then stuck else .taken
      | some .binaryExpr | some .comparisonExpr | some .compoundAssignExpr =>
        let own := operatorPrecedence p
        if isAttributed p then other
        else if own == .compare && next == .compare then .taken
        else
          match inside own false false own with
          | .taken => .taken
          | .left => byStrength
          | .refused =>
            if own != .assign && (strengthInside own false).rank ≤ own.rank then byStrength
            else stuck
      | some .addressExpr | some .referenceExpr | some .unaryExpr =>
        match inside .unary false false base with
        | .taken => .taken
        | .left => byStrength
        | .refused =>
          if (strengthInside .unary false).rank < Precedence.unary.rank then byStrength else stuck
      | some .rangeExpr =>
        if isAttributed p then other
        else if !hasUpperEnd p then if s.nextStartsOperand then .taken else .refused
        else
          let met := inside .range false true .range
          let split := [Precedence.assign, .range].contains next
          if met == .taken || (met == .left && !split) then .taken
          else if (strengthInside .range true).rank ≤ Precedence.range.rank then .taken
          else .refused
      | some .breakExpr =>
        if isBareJump p then bareJump
        else if !p.ownParts.any isLifetime && startsWithLabel (n + 1) last then .taken
        else jump true true
      | some .returnExpr | some .yieldExpr => if isBareJump p then bareJump else jump true false
      | some .closureExpr =>
        if (p.child? .returnType).isNone || isPlainBlock last then jump false false else .taken
      | some .letExpr =>
        let met := inside .allow false false .allow
        if met == .taken then .taken
        else if next.rank < Precedence.allow.rank then .left
        else if met == .left then .taken
        else if (strengthInside .allow false).rank < Precedence.allow.rank then .taken
        else .left
      | _ => other

end FormulaBinding.Grammar
