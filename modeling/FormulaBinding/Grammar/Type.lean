import FormulaBinding.Grammar.Nonterminal

/-! # Paths, types and bounds -/
namespace FormulaBinding.Grammar
open FormulaBinding.Parser

/-! ## Attributes and blocks -/

/-- Reads a path without arguments, as attributes and macros have them. -/
def simplePath : Parser Unit := node .simplePath do
  discard (mark? "::")
  let starts (ts : List Token) : Bool :=
    Ahead.name ts || Ahead.oneOf ["super", "self", "Self", "crate"] ts
  if !(← peek starts) then name
  repeatWhile do
    if !(← peek starts) then expected ["path segment after `::`"]
    node .segment anyName
    mark? "::"

variable (read : Reader)

def block : Parser Unit := node .block do braces (read .statements)

/-- Reads the content of an attribute: a path, and perhaps a group or a value. -/
def attributeContent : Parser Unit := do
  if ← peek (Ahead.word "unsafe") then node .simplePath do node .segment anyName
  else simplePath
  let isGroup (ts : List Token) : Bool :=
    Ahead.group .parenthesis ts || Ahead.group .bracket ts || Ahead.group .brace ts
  if ← peek isGroup then discard anyGroup
  else if (← peek (Ahead.mark "=")) && !(← peek (Ahead.mark "==")) &&
      !(← peek (Ahead.mark "=>")) then
    mark "="
    if (← peek (Ahead.mark "#")) && (← peek2 (Ahead.group .bracket)) then
      fail (.refused "unexpected attribute inside of attribute")
    else read (.expr true)

def outerAttribute : Parser Unit := node .outerAttribute do
  mark "#"
  brackets (attributeContent read)

def outerAttributes : Parser Unit :=
  repeatWhile do
    if !(← peek (Ahead.mark "#")) then return false
    outerAttribute read
    return true

def innerAttributes : Parser Unit :=
  repeatWhile do
    if !((← peek (Ahead.mark "#")) && (← peek2 (Ahead.mark "!"))) then return false
    node .innerAttribute do
      mark "#"
      mark "!"
      brackets (attributeContent read)
    return true

/-- Reads a block whose braces may start with attributes. -/
def attributedBlock : Parser Unit := node .block do
  braces do
    innerAttributes read
    read .statements

/-! ## Arguments of a path -/

/-- Reads a value argument: a literal, a name or a block. -/
def constValue : Parser Unit := do
  if ← peek Ahead.literal then node .literalExpr literal
  else if ← peek Ahead.name then
    node .pathExpr do node .path do node .segment name
  else if ← peek (Ahead.group .brace) then node .blockExpr do attributedBlock read
  else expected []

/-- Whether the last phrase is a path type of a single plain segment, which may be the name of a
binding. -/
def isBindingName : Phrase → Bool
  | .node .pathType [.node .path [.node .segment parts]] => !parts.any (Phrase.is .callArguments)
  | _ => false

def bindingParts : Phrase → List Phrase
  | .node .pathType [.node .path [.node .segment parts]] => parts
  | p => [p]

/-- Makes a phrase of the last phrase, which names a binding, and what a parser reads after it. -/
def extendBinding (k : Kind) (p : Parser Unit) : Parser Unit := do
  match (← get).row with
  | last :: before =>
    modify fun c => { c with row := before }
    node k do
      for part in bindingParts last do emit part
      p
  | [] => node k p

/-- Reads bounds joined by plus signs until one of some tokens is ahead. -/
def boundsUntil (stop : List Token → Bool) (captures conditional : Bool) : Parser Unit :=
  repeatWhile do
    if ← peek stop then return false
    read (.bound captures conditional)
    mark? "+"

def genericArgument : Parser Unit := do
  if (← peek Ahead.lifetime) && !(← peek2 (Ahead.mark "+")) then node .lifetimeArgument lifetime
  else if (← peek Ahead.literal) || (← peek (Ahead.group .brace)) then
    node .constArgument (constValue read)
  else
    read (.type true)
    let binds := (← get).row.head?.any isBindingName
    if binds && (← peek (Ahead.mark "=")) then
      extendBinding .binding do
        mark "="
        if (← peek Ahead.literal) || (← peek (Ahead.group .brace)) then constValue read
        else read (.type true)
    else if binds && (← peek (Ahead.mark ":")) then
      extendBinding .constraint do
        mark ":"
        boundsUntil read (fun ts => Ahead.mark "," ts || Ahead.mark ">" ts) false true
    else extend .typeArgument (pure ())

/-- Splits arguments into pairs of an argument and the comma after it. -/
def pairArguments : List Phrase → List (Phrase × Option Phrase)
  | [] => []
  | p :: q :: rest =>
    if q.isMark ',' then (p, some q) :: pairArguments rest
    else (p, none) :: pairArguments (q :: rest)
  | [p] => [(p, none)]

def comma : Phrase := .token (.mark ',' false Extent.nowhere)

/-- Puts the pairs that come first in front of the others; a comma is added between the two where
there is none. -/
def inOrder (first : Phrase → Bool) (ps : List (Phrase × Option Phrase)) : List Phrase :=
  let flatten := List.flatMap fun (p, c) => p :: Option.toList (α := Phrase) c
  let (leading, others) := ps.partition (first ·.1)
  let separated := (leading.getLast?.all (·.2.isSome)) || others.isEmpty
  flatten leading ++ (if separated then [] else [comma]) ++ flatten others

/-- Puts the leading arguments of the last phrase's row in front. -/
def reorder (first : Phrase → Bool) (p : Parser Unit) : Parser Unit := do
  let (_, parts) ← collect p
  for part in inOrder first (pairArguments parts) do emit part

/-- Reads arguments in angle brackets; lifetimes are put in front of the others. -/
def genericArguments : Parser Unit := node .genericArguments do
  discard (mark? "::")
  mark "<"
  reorder (Phrase.is .lifetimeArgument) do
    repeatWhile do
      if ← peek (Ahead.mark ">") then return false
      genericArgument read
      if ← peek (Ahead.mark ">") then return false
      mark ","
      return true
  mark ">"

def returnType (plus : Bool) : Parser Unit := do
  if ← peek (Ahead.mark "->") then
    node .returnType do
      mark "->"
      read (.type plus)

/-- Reads the arguments and the result of a function-like bound. -/
def callArguments : Parser Unit := node .callArguments do
  parens (separated "," (read (.type true)))
  returnType read false

/-! ## Paths -/

/-- Keywords that may be segments of a path without arguments. -/
def pathWords : List String := ["super", "self", "crate", "try"]

/-- Whether arguments in angle brackets are ahead; in an expression only after a double colon. -/
def argumentsAhead (inExpr : Bool) (ts : List Token) : Bool :=
  (!inExpr && Ahead.mark "<" ts && !Ahead.mark "<=" ts && !Ahead.mark "<<=" ts) ||
    (Ahead.mark "::" ts && Ahead.mark "<" (ts.drop 2))

def segment (inExpr : Bool) : Parser Unit := node .segment do
  if ← peek (Ahead.oneOf pathWords) then anyName
  else
    if ← peek (Ahead.word "Self") then anyName else name
    if ← peek (argumentsAhead inExpr) then genericArguments read

/-- Whether the path goes on: a double colon that no parenthesis follows. -/
def pathGoesOn (ts : List Token) : Bool :=
  Ahead.mark "::" ts && !Ahead.group .parenthesis (ts.drop 2)

def pathParts (inExpr : Bool) : Parser Unit := do
  discard (mark? "::")
  segment read inExpr
  repeatWhile do
    if !(← peek pathGoesOn) then return false
    mark "::"
    segment read inExpr
    return true

def path (inExpr : Bool) : Parser Unit := node .path (pathParts read inExpr)

/-- Reads a path, or a path that starts from a type in angle brackets. -/
def anyPath (inExpr : Bool) : Parser Unit := do
  if ← peek (Ahead.mark "<") then
    node .qualifiedPath do
      mark "<"
      read (.type true)
      if ← word? "as" then path read false
      mark ">"
      mark "::"
      repeatWhile do
        segment read inExpr
        if !(← peek (Ahead.mark "::")) then return false
        mark "::"
        return true
  else path read inExpr

/-- Whether the arguments of a function-like bound are ahead. -/
def callAhead (ts : List Token) : Bool :=
  Ahead.group .parenthesis ts || (Ahead.mark "::" ts && Ahead.group .parenthesis (ts.drop 2))

/-- Whether a phrase is a list of arguments in angle brackets with something in it. -/
def isArguments (p : Phrase) : Bool :=
  p.is .genericArguments && p.parts.any fun q => q.kind?.isSome

/-- Whether the last segment of a path has arguments. -/
def endsWithArguments (p : Phrase) : Bool :=
  match p.parts.getLast? with
  | some segment => segment.parts.any isArguments
  | none => false

/-- Puts arguments at the end of the last segment of a path, where an empty list may stand. -/
def addToLastSegment (arguments : List Phrase) : Phrase → Phrase
  | .node k parts =>
    match parts.reverse with
    | .node .segment inner :: before =>
      let kept := inner.filter (!Phrase.is .genericArguments ·)
      .node k (before.reverse ++ [.node .segment (kept ++ arguments)])
    | _ => .node k (parts ++ arguments)
  | p => p

/-- Reads the arguments of a function-like bound, if they are ahead, into the path read last. -/
def callArgumentsInPath : Parser Unit := do
  match (← get).row with
  | last :: before =>
    if !endsWithArguments last && (← peek callAhead) then
      if ← peek (Ahead.mark "::") then dropMark "::"
      let (_, arguments) ← collect (callArguments read)
      modify fun c => { c with row := addToLastSegment arguments last :: before }
  | [] => pure ()

/-- Whether a path phrase consists of plain segments only. -/
def isPlainPath (p : Phrase) : Bool :=
  p.is .path && (p.children .segment).all fun s => s.parts.length == 1

/-! ## Generic parameters -/

/-- Reads a list of lifetimes joined by plus signs until one of some tokens is ahead. -/
def lifetimeBounds (stop : List Token → Bool) : Parser Unit :=
  repeatWhile do
    if (← atEnd) || (← peek stop) then return false
    lifetime
    mark? "+"

def withBounds (p : Parser Unit) : Parser Unit := do
  if ← peek (Ahead.mark ":") then
    let (_, parts) ← collect do
      mark ":"
      p
    if parts.length > 1 then for part in parts do emit part

/-- Reads a generic parameter. Only a parameter that `declared` says to be one of a declaration may
be an underscore. -/
def genericParameter (declared : Bool) : Parser Unit := node .genericParameter do
  outerAttributes read
  let closes (ts : List Token) : Bool := Ahead.mark "," ts || Ahead.mark ">" ts
  if ← peek Ahead.lifetime then
    lifetime
    withBounds (lifetimeBounds closes)
  else if ← peek Ahead.name then
    name
    withBounds do
      if !(← atEnd) then
        boundsUntil read (fun ts => ts.isEmpty || closes ts || Ahead.mark "=" ts) false true
    if ← mark? "=" then read (.type true)
  else if ← word? "const" then
    name
    mark ":"
    read (.type true)
    if ← mark? "=" then constValue read
  else if declared && (← peek (Ahead.word "_")) then anyName
  else expected (if declared then ["lifetime", "identifier", "`const`"]
    else ["identifier", "lifetime", "`const`"])

def isLifetimeParameter (p : Phrase) : Bool :=
  p.parts.any fun
    | .token (.lifetime _ _) => true
    | _ => false

/-- Whether a generic parameter starts with a lifetime, its attributes aside. -/
def startsWithLifetime (p : Phrase) : Bool :=
  match p.parts.find? (!Phrase.is .outerAttribute ·) with
  | some (.token (.lifetime _ _)) => true
  | _ => false

/-- Reads generic parameters up to the closing angle bracket. -/
def genericParameters (declared : Bool) : Parser Unit :=
  repeatWhile do
    if ← peek (Ahead.mark ">") then return false
    genericParameter read declared
    if ← peek (Ahead.mark ">") then return false
    mark ","
    return true

/-- Reads generic parameters if they are ahead, and says whether they were; lifetimes are put in
front of the others, and empty brackets are dropped. -/
def generics : Parser Bool := do
  if !(← peek (Ahead.mark "<")) then return false
  let (_, parts) ← collect do
    mark "<"
    reorder startsWithLifetime (genericParameters read true)
    mark ">"
  if parts.length > 2 then emit (.node .generics parts)
  return true

/-- Reads the lifetimes that a type is generic over, if they are ahead. -/
def forLifetimes : Parser Bool := do
  if ← peek (Ahead.word "for") then
    node .forLifetimes do
      word "for"
      mark "<"
      genericParameters read false
      mark ">"
    return true
  else return false

/-- Whether a predicate of a where clause, or the clause, ends here. -/
def predicateEnds (ts : List Token) : Bool :=
  ts.isEmpty || Ahead.group .brace ts || Ahead.mark "," ts || Ahead.mark ";" ts ||
    (Ahead.mark ":" ts && !Ahead.mark "::" ts) || Ahead.mark "=" ts

def predicate : Parser Unit := node .predicate do
  if (← peek Ahead.lifetime) && (← peek2 (Ahead.mark ":")) then
    lifetime
    mark ":"
    lifetimeBounds predicateEnds
  else
    discard (forLifetimes read)
    read (.type true)
    mark ":"
    boundsUntil read predicateEnds false true

/-- Whether a generic parameter list is ahead, and not a path that starts from a type. -/
def genericsAhead (ts : List Token) : Bool :=
  let second := ts.drop 1
  let third := ts.drop 2
  Ahead.mark "<" ts &&
    (Ahead.mark ">" second || Ahead.mark "#" second || Ahead.word "const" second ||
      ((Ahead.name second || Ahead.lifetime second) &&
        ((Ahead.mark ":" third && !Ahead.mark "::" third) || Ahead.mark "," third ||
          Ahead.mark ">" third || Ahead.mark "=" third)))

/-- Reads a where clause if it is ahead; a clause without predicates has no tokens. -/
def whereClause : Parser Unit := do
  if !(← peek (Ahead.word "where")) then return
  let (_, parts) ← collect do
    word "where"
    if ← peek genericsAhead then
      fail (.refused "generic parameters on `where` clauses are reserved for future use")
    repeatWhile do
      if ← peek predicateEnds then return false
      predicate read
      mark? ","
  emit (.node .whereClause (if parts.length > 1 then parts else []))

/-! ## Bounds -/

/-- Reads what a trait bound consists of; `conditional` allows a bound that holds in constants. It
says whether the bound is an ordinary one. -/
def traitBoundParts (conditional : Bool) : Parser Bool := do
  let generic ← forLifetimes read
  let place := (← ahead).head?.map Token.whole
  let mut ordinary := true
  if ← peek (Ahead.group .bracket) then
    brackets (word "const")
    if !conditional then throw { fault := .refused "`[const]` is not allowed here", place }
    ordinary := false
  else if ← peek (Ahead.word "const") then
    if !conditional then fail (.refused "`const` is not allowed here")
    word "const"
    ordinary := false
  let place := (← get).place
  let optional ← mark? "?"
  let generic ← if !generic && optional then forLifetimes read else pure generic
  path read false
  callArgumentsInPath read
  if generic && optional then
    let rule := "`for<...>` binder not allowed with `?` trait polarity modifier"
    throw { fault := .refused rule, place }
  return ordinary

def isLifetime : Phrase → Bool
  | .token (.lifetime _ _) => true
  | _ => false

/-- Reads the parameters that a type captures; lifetimes are put in front of the others. -/
def capture : Parser Unit := node .capture do
  word "use"
  mark "<"
  reorder isLifetime do
    repeatWhile do
      if ← peek (Ahead.mark ">") then return false
      if ← peek Ahead.lifetime then lifetime
      else if (← peek Ahead.name) || (← peek (Ahead.word "Self")) then anyName
      else expected ["lifetime", "identifier", "`>`"]
      if ← peek (Ahead.mark ">") then return false
      if ← peek (Ahead.mark ",") then mark "," else expected ["`,`", "`>`"]
      return true
  mark ">"

/-- Reads a bound. One that holds in constants is kept as it is written. -/
def bound (captures conditional : Bool) : Parser Unit := do
  let place := (← get).place
  if ← peek Ahead.lifetime then node .lifetimeBound lifetime
  else if ← peek (Ahead.word "use") then
    capture
    let rule := "`use<...>` precise capturing syntax is not allowed here"
    if !captures then throw { fault := .refused rule, place }
  else
    let before := (← get).rest
    let (ordinary, parts) ← collect do
      if ← peek (Ahead.group .parenthesis) then parens (traitBoundParts read conditional)
      else traitBoundParts read conditional
    if ordinary then emit (.node .traitBound parts) else emitWritten .verbatimBound before

/-- Whether another bound may follow a plus sign. -/
def boundAhead (conditional : Bool) (ts : List Token) : Bool :=
  Ahead.anyName ts || Ahead.mark "::" ts || Ahead.mark "?" ts || Ahead.lifetime ts ||
    Ahead.group .parenthesis ts ||
    (conditional && (Ahead.group .bracket ts || Ahead.word "const" ts))

/-- Reads one or more bounds; a plus sign may end the list. -/
def bounds (plus captures conditional : Bool) : Parser Unit :=
  repeatWhile do
    read (.bound captures conditional)
    if !(plus && (← peek (Ahead.mark "+"))) then return false
    mark "+"
    peek (boundAhead conditional)

def furtherBounds : Parser Unit :=
  repeatWhile do
    if !(← mark? "+") then return false
    read (.bound false false)
    return true

/-- Reads a word, if there is one to read, and bounds of which one at least is not a lifetime. -/
def boundsWithTrait (intro : Parser Unit) (plus captures conditional : Bool) (rule : String) :
    Parser Unit := do
  let place := (← get).place
  intro
  let (_, parts) ← collect (bounds read plus captures conditional)
  let isTrait (p : Phrase) : Bool := p.is .traitBound || p.is .verbatimBound
  if parts.any isTrait then for part in parts do emit part
  else throw { fault := .refused rule, place }

/-- Reads bounds of a type of objects, behind the word in front of them. -/
def objectBounds (intro : Parser Unit) (plus : Bool) : Parser Unit :=
  boundsWithTrait read intro plus false false "at least one trait is required for an object type"

/-! ## Types -/

/-- Reads a macro call after its path: the mark and a group. -/
def macroCall : Parser Delimiter := do
  mark "!"
  anyGroup

def foreignInterface : Parser Bool := do
  if ← peek (Ahead.word "extern") then
    node .foreignInterface do
      word "extern"
      if ← peek Ahead.stringLiteral then stringLiteral
    return true
  else return false

def functionParameter (first : Bool) : Parser Unit := do
  let mutSelf ← if first then
      pure ((← peek (Ahead.word "mut")) && (← peek2 (Ahead.word "self"))) else pure false
  if mutSelf then
    verbatim .functionParameter do
      word "mut"
      word "self"
      if (← peek (Ahead.mark ":")) && !(← peek (Ahead.mark "::")) then
        mark ":"
        read (.type true)
  else
    let startsName (ts : List Token) : Bool :=
      Ahead.name ts || Ahead.word "_" ts || (first && Ahead.word "self" ts)
    if (← peek startsName) && (← peek2 (Ahead.mark ":")) && !(← peek2 (Ahead.mark "::")) then
      anyName
      mark ":"
    read (.type true)

/-- Reads a function type after the lifetimes it is generic over. -/
def functionType : Parser Unit := do
  discard (forLifetimes read)
  discard (word? "unsafe")
  discard (foreignInterface)
  word "fn"
  parens do
    repeatWhile do
      if ← atEnd then return false
      let (_, attributes) ← collect (outerAttributes read)
      let emitAttributes : Parser Unit := for a in attributes do emit a
      let lastComma := (← get).row.head?.all (Phrase.isMark ',')
      let named := ((← peek Ahead.name) || (← peek (Ahead.word "_"))) &&
        (← peek2 (Ahead.mark ":")) && (← peek3 (Ahead.mark "..."))
      if lastComma && ((← peek (Ahead.mark "...")) || named) then
        node .variadic do
          emitAttributes
          if named then
            anyName
            mark ":"
          mark "..."
          discard (mark? ",")
        return false
      let first := (← get).row.isEmpty
      node .functionParameter do
        emitAttributes
        functionParameter read first
      if ← atEnd then return false
      mark ","
      return true
  returnType read false

def typeStarts : List String :=
  ["`for`", "parentheses", "`fn`", "`unsafe`", "`extern`", "identifier", "`::`", "`<`", "`dyn`",
    "square brackets", "`*`", "`&`", "`!`", "`impl`", "`_`", "lifetime"]

def pathAhead (ts : List Token) : Bool :=
  Ahead.name ts || Ahead.oneOf ["super", "self", "Self", "crate"] ts || Ahead.mark "::" ts ||
    Ahead.mark "<" ts

def functionAhead (ts : List Token) : Bool := Ahead.oneOf ["fn", "unsafe", "extern"] ts

/-- Turns the path type read last into the first of several bounds. -/
def extendBounds (p : Parser Unit) : Parser Unit := do
  match (← get).row with
  | .node .pathType parts :: before =>
    modify fun c => { c with row := before }
    node .boundsType do
      emit (.node .traitBound parts)
      p
  | _ => p

/-- Turns the type in parentheses read last into the first of several bounds, if it can be one. -/
def parenAsBound? : Phrase → Option Phrase
  | .node .parenType [.group d [.node .pathType [.node .path ps]] o c] =>
    some (.node .traitBound [.group d [.node .path ps] o c])
  | .node .parenType [.group d [.node .boundsType [.node .traitBound ps]] o c] =>
    some (.node .traitBound [.group d ps o c])
  | .node .parenType [.group _ [.node .boundsType [.node .lifetimeBound ps]] _ _] =>
    some (.node .lifetimeBound ps)
  | _ => none

def parenType (plus : Bool) : Parser Unit := do
  let inside := (← ahead).head?.elim [] fun
    | .group _ body _ _ => body
    | _ => []
  if inside.isEmpty then node .tupleType do parens (pure ())
  else if Ahead.lifetime inside then
    node .parenType do parens do node .boundsType do
      objectBounds read (pure ()) true
  else if Ahead.mark "?" inside then
    node .boundsType do
      node .traitBound do parens (discard (traitBoundParts read false))
      furtherBounds read
  else
    let (isTuple, parts) ← collect do
      parens do
        read (.type true)
        if ← peek (Ahead.mark ",") then
          mark ","
          separated "," (read (.type true))
          return true
        return false
    if isTuple then emit (.node .tupleType parts)
    else
      let paren := Phrase.node .parenType parts
      match if plus && (← peek (Ahead.mark "+")) then parenAsBound? paren else none with
      | some first =>
        node .boundsType do
          emit first
          furtherBounds read
      | none => emit paren

def pathTypeOrBounds (plus : Bool) (lifetimes : List Phrase) : Parser Unit := do
  node .pathType (anyPath read false)
  match (← get).row.head? with
  | some (.node .pathType [p]) =>
    if p.is .qualifiedPath then pure ()
    else if isPlainPath p && (← peek (Ahead.mark "!")) && !(← peek (Ahead.mark "!=")) then
      match (← get).row with
      | .node _ parts :: before =>
        modify fun c => { c with row := .node .macroType parts :: before }
        extendMacro
      | _ => pure ()
    else if !lifetimes.isEmpty || (plus && (← peek (Ahead.mark "+"))) then
      prepend lifetimes
      extendBounds do
        if plus then
          repeatWhile do
            if !(← mark? "+") then return false
            if !(← peek (boundAhead false)) then return false
            read (.bound false false)
            return true
  | _ => pure ()
where
  /-- Reads the call of a macro into the phrase read last. -/
  extendMacro : Parser Unit := do
    match (← get).row with
    | .node k parts :: before =>
      modify fun c => { c with row := before }
      node k do
        for part in parts do emit part
        discard macroCall
    | _ => pure ()

def builtinAhead (ts : List Token) : Bool :=
  Ahead.word "builtin" ts && Ahead.mark "#" (ts.drop 1)

def builtin (k : Kind) : Parser Unit := verbatim k do
  word "builtin"
  mark "#"
  name
  if !(← peek (Ahead.group .parenthesis)) then expected ["parentheses"]
  take

def type (plus : Bool) : Parser Unit := do
  let (generic, lifetimes) ← collect (forLifetimes read)
  if generic then
    let allowed (ts : List Token) : Bool :=
      (Ahead.name ts || functionAhead ts || Ahead.oneOf ["super", "self", "Self", "crate"] ts) &&
        !Ahead.word "dyn" ts
    if !(← peek allowed) then
      expected ["identifier", "`fn`", "`unsafe`", "`extern`", "`super`", "`self`", "`Self`",
        "`crate`"]
  if ← peek (Ahead.group .parenthesis) then parenType read plus
  else if ← peek functionAhead then
    node .functionType do
      for l in lifetimes do emit l
      functionType read
  else if ← peek builtinAhead then builtin .verbatimType
  else if ← peek pathAhead then pathTypeOrBounds read plus lifetimes
  else if ← peek (Ahead.word "dyn") then
    let starred ← peek2 (Ahead.mark "*")
    let body := objectBounds read (do word "dyn"; discard (mark? "*")) plus
    if starred then verbatim .verbatimType body else node .dynamicType body
  else if ← peek (Ahead.group .bracket) then
    let (isArray, parts) ← collect do
      brackets do
        read (.type true)
        if ← mark? ";" then
          read (.expr true)
          return true
        return false
    emit (.node (if isArray then .arrayType else .sliceType) parts)
  else if ← peek (Ahead.mark "*") then
    node .pointerType do
      mark "*"
      if (← peek (Ahead.word "const")) || (← peek (Ahead.word "mut")) then anyName
      else expected ["`const`", "`mut`"]
      read (.type false)
  else if ← peek (Ahead.mark "&") then
    node .referenceType do
      mark "&"
      discard lifetime?
      discard (word? "mut")
      read (.type false)
  else if (← peek (Ahead.mark "!")) && !(← peek (Ahead.mark "=")) then node .neverType (mark "!")
  else if ← peek (Ahead.word "impl") then
    node .boundsType do
      boundsWithTrait read (word "impl") plus true true "at least one trait must be specified"
  else if ← peek (Ahead.word "_") then node .inferredType anyName
  else if ← peek Ahead.lifetime then
    node .dynamicType do objectBounds read (pure ()) true
  else expected typeStarts

end FormulaBinding.Grammar
