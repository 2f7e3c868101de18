import FormulaBinding.Grammar.Statement

/-! # Declarations -/
namespace FormulaBinding.Grammar
open FormulaBinding.Parser

variable (read : Reader)

def itemName : Parser Unit := node .itemName name

def nameOrUnderscore : Parser Unit := do
  if (← peek Ahead.name) || (← peek (Ahead.word "_")) then node .itemName anyName
  else expected ["identifier", "`_`"]

def restriction : Parser Unit := do
  let restricted ← attempt do
    parens do
      if ← peek (Ahead.oneOf ["crate", "self", "super"]) then
        anyName
        if !(← atEnd) then expected []
      else expected []
  match restricted with
  | some () => pure ()
  | none =>
    let inside := (← ahead).head?.elim [] fun
      | .group _ body _ _ => body
      | _ => []
    if Ahead.word "in" inside then
      parens do
        word "in"
        simplePath

def visibility : Parser Unit := do
  if ← peek (Ahead.word "pub") then
    node .visibility do
      word "pub"
      if ← peek (Ahead.group .parenthesis) then restriction

def receiver : Parser Unit := do
  let reference ← mark? "&"
  if reference then discard lifetime?
  discard (word? "mut")
  word "self"
  if ← peek (Ahead.mark "::") then expected []
  if !reference && (← mark? ":") then read (.type true)

def selfPlace (parts : List Phrase) : Option Extent :=
  parts.findSome? fun
    | .token (.name "self" e) => some e
    | _ => none

/-- Reads a parameter after its attributes: a receiver, a variable number of arguments, or a pattern
with a type. -/
def parameter (attributes : List Phrase) : Parser Kind := do
  let emitAttributes : Parser Unit := for a in attributes do emit a
  match ← attempt (collect (receiver read)) with
  | some (_, parts) =>
    emit (.node .receiver (attributes ++ parts))
    return .receiver
  | none =>
    if (← peek Ahead.name) && (← peek2 (Ahead.mark "<")) then
      let place := (← ahead).head?.elim Extent.nowhere Token.head
      node .parameter do
        emitAttributes
        emit (.node .pattern [.token (.name "_" place)])
        emit (.token (.mark ':' false place))
        read (.type true)
      return .parameter
    else
      let (isVariadic, parts) ← collect do
        emitAttributes
        read .pattern
        mark ":"
        if ← mark? "..." then return true
        read (.type true)
        return false
      let kind := if isVariadic then Kind.variadic else .parameter
      emit (.node kind parts)
      return kind

/-- Reads the parameters of a function. A receiver has to come first and alone. -/
def parameters : Parser Unit :=
  repeatWhile do
    if ← atEnd then return false
    let before := (← get).row
    let (_, attributes) ← collect (outerAttributes read)
    if ← peek (Ahead.mark "...") then
      node .variadic do
        for a in attributes do emit a
        mark "..."
      if !(← atEnd) then mark ","
      return false
    let kind ← parameter read attributes
    if kind == .variadic then
      if !(← atEnd) then mark ","
      return false
    if kind == .receiver then
      let place := (← get).row.head?.bind (selfPlace ·.parts)
      if before.any (Phrase.is .receiver) then
        throw { fault := .refused "unexpected second method receiver", place }
      if !before.isEmpty then throw { fault := .refused "unexpected method receiver", place }
    if ← atEnd then return false
    mark ","
    return true

/-- Reads the signature of a function. `safe` allows the modifier of that name and says whether it
was there. -/
def signature (safe : Bool) : Parser Bool := node .signature do
  let modifier (w : String) : Parser Bool := do
    if ← peek (Ahead.word w) then
      node .functionModifier (word w)
      return true
    else return false
  discard (modifier "const")
  discard (modifier "async")
  let isSafe ← if safe && (← peek (Ahead.word "safe")) then modifier "safe" else
    discard (modifier "unsafe")
    pure false
  discard foreignInterface
  word "fn"
  itemName
  discard (generics read)
  parens (parameters read)
  returnType read true
  whereClause read
  return isSafe

def signatureAhead (safe : Bool) (ts : List Token) : Bool :=
  let dropWord (w : String) (ts : List Token) : List Token :=
    if Ahead.word w ts then ts.drop 1 else ts
  let ts := dropWord "async" (dropWord "const" ts)
  let ts := if safe && Ahead.word "safe" ts then ts.drop 1 else dropWord "unsafe" ts
  let ts :=
    if Ahead.word "extern" ts then
      let ts := ts.drop 1
      if Ahead.stringLiteral ts then ts.drop 1 else ts
    else ts
  Ahead.word "fn" ts

def functionBody : Parser Unit :=
  braces do
    innerAttributes read
    read .statements

/-- Reads a value after an equality sign, if there is one, and says whether there was. -/
def initialValue : Parser Bool := do
  if ← mark? "=" then
    read (.expr true)
    return true
  else return false

/-- Whether the last phrases contain generic parameters or a where clause. -/
def isGeneric (parts : List Phrase) : Bool :=
  parts.any fun p => p.is .generics || p.is .whereClause

/-- Reads a constant, whose value may be missing; the answer says whether the declaration is
complete and not generic. -/
def constant : Parser Bool := do
  word "const"
  nameOrUnderscore
  let generic ← generics read
  mark ":"
  read (.type true)
  let valued ← initialValue read
  let before := (← get).row.length
  whereClause read
  let clause := (← get).row.length != before
  mark ";"
  return valued && !generic && !clause

def boundsEnd (ts : List Token) : Bool :=
  Ahead.word "where" ts || Ahead.mark "=" ts || Ahead.mark ";" ts

/-- Where the where clause of a type declaration stands. -/
inductive ClausePlace where
  | beforeValue
  | afterValue
  | either
  deriving DecidableEq

/-- Reads bounds up to one of some tokens; a plus sign has to stand between two of them. -/
def strictBounds (conditional : Bool) (stop : List Token → Bool) : Parser Unit :=
  repeatWhile do
    if ← peek stop then return false
    read (.bound false conditional)
    if ← peek stop then return false
    mark "+"
    return true

/-- What a type declaration has: bounds and a value. -/
structure TypeShape where
  bounded : Bool
  valued : Bool

def typeDeclaration (place : ClausePlace) : Parser TypeShape := do
  word "type"
  itemName
  discard (generics read)
  let bounded ← peek (Ahead.mark ":")
  withBounds (strictBounds read true boundsEnd)
  let before := (← get).row.length
  if place != .afterValue then whereClause read
  let clause := (← get).row.length != before
  let valued ← mark? "="
  if valued then read (.type true)
  if place == .afterValue || (place == .either && !clause) then whereClause read
  mark ";"
  return ⟨bounded, valued⟩

/-- Reads a macro call as a declaration: one without braces ends with a semicolon. -/
def macroItem (named : Bool) : Parser Unit := node .macroItem do
  simplePath
  mark "!"
  if named && ((← peek Ahead.name) || (← peek (Ahead.word "try"))) then anyName
  let delimiter ← anyGroup
  if delimiter != .brace then mark ";"

def macroItemAhead (ts : List Token) : Bool :=
  Ahead.name ts || Ahead.oneOf ["self", "super", "crate"] ts || Ahead.mark "::" ts

def macroStarts : List String := ["identifier", "`self`", "`super`", "`crate`", "`::`"]

def traitMethod : Parser Unit := node .functionItem do
  discard (signature read false)
  if ← peek (Ahead.group .brace) then functionBody read
  else if ← peek (Ahead.mark ";") then mark ";"
  else expected ["curly braces", "`;`"]

/-- Reads what a trait contains. One with a visibility or a default is kept as it is written. -/
def traitItem : Parser Unit := do
  let before ← get
  let (_, attributes) ← collect (outerAttributes read)
  let (_, modifiers) ← collect do
    visibility
    discard (word? "default")
  let plain := modifiers.isEmpty
  let ts ← ahead
  let second := ts.drop 1
  let isConstant := Ahead.word "const" ts && (Ahead.name second || Ahead.word "_" second)
  let kept ←
    if Ahead.word "fn" ts || signatureAhead false ts then
      traitMethod read
      pure true
    else if Ahead.word "const" ts then
      if isConstant then
        let (whole, parts) ← collect (traitConstant read)
        emit (.node .constItem parts)
        pure whole
      else if Ahead.oneOf ["async", "unsafe", "extern", "fn"] second then
        traitMethod read
        pure true
      else
        skip
        expected ["identifier", "`_`", "`async`", "`unsafe`", "`extern`", "`fn`"]
    else if Ahead.word "type" ts then
      node .typeItem do discard (typeDeclaration read .afterValue)
      pure true
    else if plain && macroItemAhead ts then
      macroItem false
      pure true
    else expected (["`fn`", "`const`", "`type`"] ++ if plain then macroStarts else [])
  if plain && kept then prepend attributes
  else
    modify fun after => { after with row := before.row }
    emitWritten .verbatimItem before.rest
where
  /-- Reads a constant of a trait, and says whether it is not generic. -/
  traitConstant (read : Reader) : Parser Bool := do
    word "const"
    nameOrUnderscore
    let generic ← generics read
    mark ":"
    read (.type true)
    discard (initialValue read)
    let before := (← get).row.length
    whereClause read
    let clause := (← get).row.length != before
    mark ";"
    return !generic && !clause

/-- Reads a trait after its name and generic parameters. -/
def restOfTrait : Parser Unit := do
  let (_, parts) ← collect (withBounds (strictBounds read true fun ts =>
    Ahead.word "where" ts || Ahead.group .brace ts))
  if !parts.isEmpty then emit (.node .supertraits parts)
  whereClause read
  braces do
    innerAttributes read
    untilEnd (traitItem read)

def traitDeclaration : Parser Unit := node .traitItem do
  outerAttributes read
  visibility
  discard (word? "unsafe")
  discard (word? "auto")
  word "trait"
  itemName
  discard (generics read)
  restOfTrait read

/-- Reads a trait, or a name for several bounds. -/
def traitOrAlias : Parser Unit := do
  let (isAlias, parts) ← collect do
    visibility
    word "trait"
    itemName
    discard (generics read)
    if (← peek (Ahead.group .brace)) || (← peek (Ahead.mark ":")) ||
        (← peek (Ahead.word "where")) then
      restOfTrait read
      return false
    else if ← mark? "=" then
      strictBounds read false fun ts => Ahead.word "where" ts || Ahead.mark ";" ts
      whereClause read
      mark ";"
      return true
    else expected ["curly braces", "`:`", "`where`", "`=`"]
  emit (.node (if isAlias then .traitAliasItem else .traitItem) parts)

/-- Reads a tree of imported names. `rooted` allows a leading double colon in a group; a tree that
has one is marked by a verbatim phrase. -/
def useTree (rooted : Bool) : Parser Unit := do
  if (← peek Ahead.name) || (← peek (Ahead.oneOf ["self", "super", "crate", "try"])) then
    if ← peek2 (Ahead.mark "::") then
      node .useTree do
        anyName
        mark "::"
        read (.useTree false)
    else if ← peek2 (Ahead.word "as") then
      node .useRename do
        anyName
        word "as"
        if (← peek Ahead.name) || (← peek (Ahead.word "_")) then anyName
        else fail (.refused "expected identifier or underscore")
    else node .useName anyName
  else if ← peek (Ahead.mark "*") then node .useGlob (mark "*")
  else if ← peek (Ahead.group .brace) then
    let (_, parts) ← collect do
      braces do
        repeatWhile do
          if ← atEnd then return false
          let fromRoot ← if rooted then mark? "::" else pure false
          read (.useTree (rooted && !fromRoot))
          if fromRoot then emit (.node .verbatimItem [])
          if ← atEnd then return false
          mark ","
          return true
    emit (.node .useGroup parts)
  else expected ["identifier", "`self`", "`super`", "`crate`", "`try`", "`*`", "curly braces"]

mutual

/-- Whether a tree of imported names has a path from the root inside. -/
def hasRootPath : Phrase → Bool
  | .node .verbatimItem _ => true
  | .node _ parts => anyRootPath parts
  | .group _ parts _ _ => anyRootPath parts
  | .token _ => false

/-- Whether one of several trees has a path from the root inside. -/
def anyRootPath : List Phrase → Bool
  | [] => false
  | p :: ps => hasRootPath p || anyRootPath ps

end

def useDeclaration : Parser Unit := do
  let (_, parts) ← collect do
    visibility
    word "use"
    let leading ← mark? "::"
    read (.useTree !leading)
    mark ";"
  if anyRootPath parts then
    emit (.node .verbatimItem parts)
  else emit (.node .useItem parts)

def namedField : Parser Unit := node .field do
  outerAttributes read
  visibility
  let unnamed ← peek (Ahead.word "_")
  if unnamed then anyName else name
  mark ":"
  let inlineType (ts : List Token) : Bool :=
    Ahead.word "struct" ts || (Ahead.word "union" ts && Ahead.group .brace (ts.drop 1))
  if unnamed && (← peek inlineType) then
    node .verbatimType do
      anyName
      take
  else read (.type true)

def namedFields : Parser Unit := node .fields do braces (separated "," (namedField read))

def tupleFields : Parser Unit := node .fields do
  parens do
    separated "," do
      node .field do
        outerAttributes read
        visibility
        read (.type true)

def structDeclaration : Parser Unit := node .structItem do
  visibility
  word "struct"
  itemName
  discard (generics read)
  let early ← peek (Ahead.word "where")
  whereClause read
  if !early && (← peek (Ahead.group .parenthesis)) then
    tupleFields read
    let late ← peek (Ahead.word "where")
    whereClause read
    if ← peek (Ahead.mark ";") then mark ";"
    else expected (if late then ["`;`"] else ["`where`", "`;`"])
  else if ← peek (Ahead.group .brace) then namedFields read
  else if ← peek (Ahead.mark ";") then mark ";"
  else expected (if early then ["curly braces", "`;`"] else
    ["`where`", "parentheses", "curly braces", "`;`"])

/-- Reads a variant of an enumeration; a visibility has no meaning and is dropped. -/
def variant : Parser Unit := node .variant do
  outerAttributes read
  discard (collect visibility)
  name
  if ← peek (Ahead.group .brace) then namedFields read
  else if ← peek (Ahead.group .parenthesis) then tupleFields read
  discard (initialValue read)

def enumDeclaration : Parser Unit := node .enumItem do
  visibility
  word "enum"
  itemName
  discard (generics read)
  whereClause read
  braces (separated "," (variant read))

def unionDeclaration : Parser Unit := node .unionItem do
  visibility
  word "union"
  itemName
  discard (generics read)
  whereClause read
  namedFields read

def implMember : Parser Unit := do
  let before ← get
  let (_, attributes) ← collect (outerAttributes read)
  let (hasVisibility, modifiers) ← collect do
    let seen ← peek (Ahead.word "pub")
    visibility
    if !(← peek2 (Ahead.mark "!")) then discard (word? "default")
    return seen
  let isDefault := modifiers.any (Phrase.isWord "default")
  let ts ← ahead
  let asWritten : Parser Unit := do
    modify fun after => { after with row := before.row }
    emitWritten .verbatimItem before.rest
  if Ahead.word "fn" ts || signatureAhead false ts then
    let (bodied, parts) ← collect do
      for m in modifiers do emit m
      discard (signature read false)
      if ← mark? ";" then return false
      functionBody read
      return true
    emit (.node .functionItem (attributes ++ parts))
    if !bodied then asWritten
  else if Ahead.word "const" ts then
    let (whole, parts) ← collect do
      for m in modifiers do emit m
      constant read
    emit (.node .constItem (attributes ++ parts))
    if !whole then asWritten
  else if Ahead.word "type" ts then
    let (shape, parts) ← collect do
      for m in modifiers do emit m
      typeDeclaration read .afterValue
    emit (.node .typeItem (attributes ++ parts))
    if shape.bounded || !shape.valued then asWritten
  else if !hasVisibility && !isDefault && macroItemAhead ts then
    macroItem false
    prepend attributes
  else
    expected ((if isDefault then [] else ["`default`"]) ++ ["`fn`", "`const`", "`type`"] ++
      if hasVisibility || isDefault then [] else macroStarts)

/-- Reads an implementation. Some forms that have no meaning are kept as they are written. -/
def implDeclaration : Parser Unit := do
  let before := (← get).rest
  let (whole, parts) ← collect do
    let hasVisibility ← peek (Ahead.word "pub")
    visibility
    discard (word? "default")
    discard (word? "unsafe")
    word "impl"
    if ← peek genericsAhead then discard (generics read)
    let isConst := (← peek (Ahead.word "const")) ||
      ((← peek (Ahead.mark "?")) && (← peek2 (Ahead.word "const")))
    if isConst then
      discard (mark? "?")
      word "const"
    let place := (← get).place
    let negative ← if (← peek (Ahead.mark "!")) && !(← peek2 (Ahead.group .brace)) then mark? "!"
      else pure false
    read (.type true)
    let ofTrait := match (← get).row.head? with
      | some (.node .pathType [p]) => p.is .path
      | _ => false
    let isFor ← word? "for"
    if isFor then read (.type true)
    else if negative then
      throw { fault := .refused "inherent impls cannot be negative", place }
    whereClause read
    braces do
      innerAttributes read
      untilEnd (implMember read)
    return !hasVisibility && !isConst && (!isFor || ofTrait)
  if whole then emit (.node .implItem parts)
  else emitWritten .verbatimItem before

def foreignMember : Parser Unit := do
  let before ← get
  let (_, attributes) ← collect (outerAttributes read)
  let hasVisibility ← peek (Ahead.word "pub")
  let (_, modifiers) ← collect visibility
  let ts ← ahead
  let asWritten : Parser Unit := do
    modify fun after => { after with row := before.row }
    emitWritten .verbatimItem before.rest
  if Ahead.word "fn" ts || signatureAhead true ts then
    let (plain, parts) ← collect do
      for m in modifiers do emit m
      let isSafe ← signature read true
      if ← peek (Ahead.group .brace) then
        functionBody read
        return false
      mark ";"
      return !isSafe
    emit (.node .functionItem (attributes ++ parts))
    if !plain then asWritten
  else if Ahead.word "static" ts ||
      (Ahead.oneOf ["unsafe", "safe"] ts && Ahead.word "static" (ts.drop 1)) then
    let (plain, parts) ← collect do
      for m in modifiers do emit m
      let isSafe := (← word? "unsafe") || (← word? "safe")
      word "static"
      discard (word? "mut")
      itemName
      mark ":"
      read (.type true)
      let valued ← initialValue read
      mark ";"
      return !isSafe && !valued
    emit (.node .staticItem (attributes ++ parts))
    if !plain then asWritten
  else if Ahead.word "type" ts then
    let (shape, parts) ← collect do
      for m in modifiers do emit m
      typeDeclaration read .either
    emit (.node .typeItem (attributes ++ parts))
    if shape.bounded || shape.valued then asWritten
  else if !hasVisibility && macroItemAhead ts then
    macroItem false
    prepend attributes
  else
    expected (["`fn`", "`static`", "`type`"] ++ if hasVisibility then [] else macroStarts)

def foreignDeclaration : Parser Unit := node .foreignItem do
  discard (word? "unsafe")
  if !(← foreignInterface) then expected ["`extern`"]
  braces do
    innerAttributes read
    untilEnd (foreignMember read)

def moduleDeclaration : Parser Unit := node .moduleItem do
  visibility
  discard (word? "unsafe")
  word "mod"
  if ← peek (Ahead.word "try") then node .itemName anyName else itemName
  if ← peek (Ahead.mark ";") then mark ";"
  else if ← peek (Ahead.group .brace) then
    braces do
      innerAttributes read
      untilEnd (read .item)
  else expected ["`;`", "curly braces"]

def externCrate : Parser Unit := node .externCrateItem do
  visibility
  word "extern"
  word "crate"
  if ← peek (Ahead.word "self") then anyName else name
  if ← word? "as" then
    if ← peek (Ahead.word "_") then anyName else name
  mark ";"

/-- Reads a static variable; one without a type or a value is kept as it is written. -/
def staticDeclaration : Parser Bool := do
  visibility
  word "static"
  discard (word? "mut")
  itemName
  if ← mark? "=" then
    read (.expr true)
    mark ";"
    return false
  mark ":"
  read (.type true)
  if ← mark? ";" then return false
  mark "="
  read (.expr true)
  mark ";"
  return true

def macroDeclaration : Parser Unit := do
  visibility
  word "macro"
  name
  let hasParameters ← peek (Ahead.group .parenthesis)
  if hasParameters then take
  if ← peek (Ahead.group .brace) then take
  else expected (if hasParameters then ["curly braces"] else ["parentheses", "curly braces"])

/-- Reads a function with its body; one without a body is kept as it is written. -/
def functionDeclaration : Parser Bool := do
  visibility
  discard (signature read false)
  if ← mark? ";" then return false
  functionBody read
  return true

def itemStarts (plain : Bool) : List String :=
  ["`fn`", "`extern`", "`use`", "`static`", "`const`", "`unsafe`", "`mod`", "`type`", "`struct`",
    "`enum`", "`union`", "`trait`", "`auto`", "`impl`", "`default`", "`macro`"] ++
    if plain then macroStarts else []

/-- Reads a declaration after its attributes. The answer says whether it is kept as a phrase; the
others are kept as they are written. -/
def itemAfterAttributes : Parser Bool := do
  let plain := !(← peek (Ahead.word "pub"))
  let ts ← foresee do
    discard (collect visibility)
    ahead
  let second := ts.drop 1
  let as (k : Kind) (p : Parser Bool) : Parser Bool := node k p
  let done (p : Parser Unit) : Parser Bool := do p; return true
  if Ahead.word "fn" ts || signatureAhead false ts then as .functionItem (functionDeclaration read)
  else if Ahead.word "extern" ts then
    if Ahead.word "crate" second then done externCrate
    else if Ahead.group .brace second then done (foreignDeclaration read)
    else if Ahead.stringLiteral second then
      if Ahead.group .brace (ts.drop 2) then done (foreignDeclaration read)
      else
        discard (collect visibility)
        skip; skip
        expected ["curly braces"]
    else
      discard (collect visibility)
      skip
      expected ["`crate`", "curly braces", "string literal"]
  else if Ahead.word "use" ts then done (useDeclaration read)
  else if Ahead.word "static" ts then as .staticItem (staticDeclaration read)
  else if Ahead.word "const" ts then
    as .constItem do
      visibility
      constant read
  else if Ahead.word "unsafe" ts then
    if Ahead.word "trait" second ||
        (Ahead.word "auto" second && Ahead.word "trait" (ts.drop 2)) then
      done (traitDeclaration read)
    else if Ahead.word "impl" second then done (implDeclaration read)
    else if Ahead.word "extern" second then done (foreignDeclaration read)
    else if Ahead.word "mod" second then done (moduleDeclaration read)
    else
      discard (collect visibility)
      skip
      expected ["`trait`", "`auto`", "`impl`", "`extern`", "`mod`"]
  else if Ahead.word "mod" ts then done (moduleDeclaration read)
  else if Ahead.word "type" ts then
    as .typeItem do
      visibility
      let shape ← typeDeclaration read .beforeValue
      return shape.valued && !shape.bounded
  else if Ahead.word "struct" ts then done (structDeclaration read)
  else if Ahead.word "enum" ts then done (enumDeclaration read)
  else if Ahead.word "union" ts && Ahead.name second then done (unionDeclaration read)
  else if Ahead.word "trait" ts then done (traitOrAlias read)
  else if Ahead.word "auto" ts && Ahead.word "trait" second then done (traitDeclaration read)
  else if Ahead.word "impl" ts || (Ahead.word "default" ts && !Ahead.mark "!" second) then
    done (implDeclaration read)
  else if Ahead.word "macro" ts then
    as .verbatimItem do
      macroDeclaration
      return false
  else if plain && macroItemAhead ts then done (macroItem true)
  else
    discard (collect visibility)
    expected (itemStarts plain)

def item : Parser Unit := do
  let before ← get
  let (_, attributes) ← collect (outerAttributes read)
  let kept ← itemAfterAttributes read
  if kept && (← lastKind?) != some .verbatimItem then prepend attributes
  else
    modify fun after => { after with row := before.row }
    emitWritten .verbatimItem before.rest

end FormulaBinding.Grammar
