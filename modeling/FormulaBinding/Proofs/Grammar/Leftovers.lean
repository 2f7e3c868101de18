import FormulaBinding.Proofs.Grammar.Steps

/-!
# What is left over inside of groups

Whatever a rule of the grammar reads, it stays in the group that it is in, and what was left over
inside of a group is remembered: where nothing was left over in the end, nothing was left over
before. The rules are taken in the order of the grammar.
-/

namespace FormulaBinding

/-- A cursor in the same group as another one, with which what was left over is not forgotten. -/
structure Cursor.Follows (c d : Cursor) : Prop where
  inside : d.inside = c.inside
  leftover : d.leftover = none → c.leftover = none

theorem Cursor.follows_of_eq {c d : Cursor} (inside : d.inside = c.inside)
    (leftover : d.leftover = c.leftover) : c.Follows d :=
  ⟨inside, fun none => leftover.symm.trans none⟩

theorem Cursor.Follows.trans {c d e : Cursor} (first : c.Follows d) (second : d.Follows e) :
    c.Follows e :=
  ⟨second.inside.trans first.inside, fun none => first.leftover (second.leftover none)⟩

namespace Parser

variable {α β : Type} {p : Parser α} {k : Kind}

/-- Whether a parser stays in its group and forgets nothing that was left over. -/
class Remembers (p : Parser α) : Prop where
  follows : ∀ {c a d}, p c = .ok (a, d) → c.Follows d

namespace Remembers

theorem of_eq (h : ∀ {c a d}, p c = .ok (a, d) → d.inside = c.inside ∧ d.leftover = c.leftover) :
    Remembers p where
  follows run := Cursor.follows_of_eq (h run).1 (h run).2

theorem ite {q : Parser α} {t : Prop} [Decidable t] (first : Remembers p) (second : Remembers q) :
    Remembers (if t then p else q) := by
  split <;> assumption

theorem collect (first : Remembers p) : Remembers (Parser.collect p) where
  follows {c a d} h := by
    obtain ⟨e, read, -, rfl⟩ := collect_eq_ok.mp h
    obtain ⟨inside, leftover⟩ := first.follows read
    exact ⟨inside, leftover⟩

theorem bind {f : α → Parser β} (first : Remembers p) (second : ∀ a, Remembers (f a)) :
    Remembers (p >>= f) where
  follows h := by
    obtain ⟨a, e, h, h'⟩ := run_bind_eq_ok.mp h
    exact (first.follows h).trans ((second a).follows h')

end Remembers

instance (x : α) : Remembers (pure x : Parser α) := .of_eq fun h => by cases h; exact ⟨rfl, rfl⟩

instance (f : α → Parser β) [first : Remembers p] [second : ∀ a, Remembers (f a)] :
    Remembers (p >>= f) := first.bind second

instance (q : Parser α) (t : Prop) [Decidable t] [first : Remembers p] [second : Remembers q] :
    Remembers (if t then p else q) := first.ite second

instance (f : α → β) [Remembers p] : Remembers (f <$> p) where
  follows h := by
    obtain ⟨a, h, -⟩ := map_eq_ok.mp h
    exact Remembers.follows h

instance [Remembers p] : Remembers (discard p : Parser PUnit) :=
  inferInstanceAs (Remembers ((fun _ => PUnit.unit) <$> p))

instance : Remembers (get : Parser Cursor) := .of_eq fun h => by cases h; exact ⟨rfl, rfl⟩

instance (f : Cursor → List Phrase) :
    Remembers (modify fun c => { c with row := f c } : Parser Unit) :=
  .of_eq fun h => by cases h; exact ⟨rfl, rfl⟩

instance (f : Cursor → List Token) :
    Remembers (modify fun c => { c with rest := f c } : Parser Unit) :=
  .of_eq fun h => by cases h; exact ⟨rfl, rfl⟩

instance (e : ParseError) : Remembers (throw e : Parser α) := .of_eq nofun

instance (test : List Token → Bool) : Remembers (peek test) := by dsimp only [peek]; infer_instance

instance (test : List Token → Bool) : Remembers (peek2 test) := by
  dsimp only [peek2]; infer_instance

instance (test : List Token → Bool) : Remembers (peek3 test) := by
  dsimp only [peek3]; infer_instance

instance : Remembers atEnd := by dsimp only [atEnd]; infer_instance

instance : Remembers ahead := by dsimp only [ahead]; infer_instance

instance : Remembers lastKind? := by dsimp only [lastKind?]; infer_instance

instance (fault : Fault) : Remembers (fail fault : Parser α) := by dsimp only [fail]; infer_instance

instance (things : List String) : Remembers (expected things : Parser α) := by
  dsimp only [expected]; infer_instance

instance (q : Phrase) : Remembers (emit q) := .of_eq fun h => by cases h; exact ⟨rfl, rfl⟩

instance (ps : List Phrase) : Remembers (prepend ps) := .of_eq fun h => by
  cases h
  dsimp only
  split <;> exact ⟨rfl, rfl⟩

instance [first : Remembers p] : Remembers (collect p) := first.collect

instance [Remembers p] : Remembers (node k p) := by dsimp only [node]; infer_instance

instance [Remembers p] : Remembers (extend k p) := by
  unfold extend
  refine .bind inferInstance fun c => ?_
  split <;> infer_instance

/-- What is left over inside of the group is remembered as well. -/
instance (d : Delimiter) (missing : String) [Remembers p] : Remembers (inGroup d missing p) where
  follows {c a after} h := by
    obtain ⟨body, o, cl, behind, content, -, read, rfl⟩ := inGroup_eq_ok.mp h
    exact ⟨rfl, fun none => (Remembers.follows read).leftover (orElse_eq_none.mp none).1⟩

instance [Remembers p] : Remembers (parens p) := by dsimp only [parens]; infer_instance

instance [Remembers p] : Remembers (brackets p) := by dsimp only [brackets]; infer_instance

instance [Remembers p] : Remembers (braces p) := by dsimp only [braces]; infer_instance

instance (q : Parser Bool) [Remembers q] (n : Nat) : Remembers (repeatUpTo q n) := by
  induction n with
  | zero => dsimp only [repeatUpTo]; infer_instance
  | succ n ih => dsimp only [repeatUpTo]; infer_instance

instance (q : Parser Bool) [Remembers q] : Remembers (repeatWhile q) := by
  dsimp only [repeatWhile]; infer_instance

instance (q : Parser Unit) [Remembers q] : Remembers (untilEnd q) := by
  dsimp only [untilEnd]; infer_instance

instance (before : List Token) : Remembers (emitWritten k before) := by
  dsimp only [emitWritten]; infer_instance

instance [Remembers p] : Remembers (verbatim k p) := by dsimp only [verbatim]; infer_instance

instance (xs : List α) (f : α → PUnit → Parser (ForInStep PUnit)) (u : PUnit)
    [each : ∀ x u, Remembers (f x u)] : Remembers (forIn xs u f) := by
  induction xs with
  | nil => exact inferInstanceAs (Remembers (pure u))
  | cons x xs ih =>
    rw [List.forIn_cons]
    refine (each x u).bind fun step => ?_
    cases step with
    | done => exact inferInstanceAs (Remembers (pure _))
    | yield => exact ih

instance (xs : List α) (f : α → Parser β) [∀ x, Remembers (f x)] : Remembers (xs.mapM f) := by
  induction xs with
  | nil => exact inferInstanceAs (Remembers (pure []))
  | cons x xs ih =>
    rw [List.mapM_cons]
    infer_instance

/-- What is left over where a parser is tried counts behind what was left over before. -/
instance [Remembers p] : Remembers (attempt p) where
  follows {c a d} h := by
    unfold attempt at h
    split at h
    · rename_i after read
      cases h
      have inside : after.inside = c.inside := (Remembers.follows read).inside
      exact ⟨inside, fun none => (orElse_eq_none.mp none).1⟩
    · cases h
      exact Cursor.follows_of_eq rfl rfl

instance : Remembers (foresee p) := .of_eq fun {c a d} h => by
  unfold foresee at h
  split at h <;> cases h
  exact ⟨rfl, rfl⟩

instance : Remembers skip := by dsimp only [skip]; infer_instance

instance (m : String) : Remembers (dropMark m) := by dsimp only [dropMark]; infer_instance

instance : Remembers take := by
  unfold take
  refine .bind inferInstance fun c => ?_
  split <;> infer_instance

instance (w : String) : Remembers (word w) := by dsimp only [word]; infer_instance

instance (w : String) : Remembers (word? w) := by dsimp only [word?]; infer_instance

instance (n : Nat) : Remembers (takeMarks n) := by
  induction n with
  | zero => dsimp only [takeMarks]; infer_instance
  | succ n ih =>
    unfold takeMarks
    refine .bind inferInstance fun c => ?_
    split <;> infer_instance

instance (m : String) : Remembers (mark m) := by dsimp only [mark]; infer_instance

instance (m : String) : Remembers (mark? m) := by dsimp only [mark?]; infer_instance

instance : Remembers name := by
  unfold name
  refine .bind inferInstance fun c => ?_
  split <;> infer_instance

instance : Remembers anyName := by dsimp only [anyName]; infer_instance

instance : Remembers lifetime := by dsimp only [lifetime]; infer_instance

instance : Remembers lifetime? := by dsimp only [lifetime?]; infer_instance

instance : Remembers literal := by
  unfold literal
  refine .bind inferInstance fun c => ?_
  split <;> infer_instance

instance : Remembers stringLiteral := by dsimp only [stringLiteral]; infer_instance

instance (text : String) (place : Extent) : Remembers (fieldPosition text place) := by
  unfold fieldPosition
  split <;> infer_instance

instance : Remembers fieldNumber := by
  unfold fieldNumber
  refine .bind inferInstance fun c => ?_
  split <;> infer_instance

instance : Remembers anyGroup := by
  unfold anyGroup
  refine .bind inferInstance fun c => ?_
  split <;> infer_instance

instance (m : String) (p : Parser Unit) [Remembers p] : Remembers (separated m p) := by
  dsimp only [separated]; infer_instance

end Parser

namespace Grammar
open FormulaBinding.Parser

-- A rule has more steps than the search for instances looks at by default.
set_option synthInstance.maxSize 100000

variable {read : Reader} [∀ nonterminal, Remembers (read nonterminal)]

instance : Remembers simplePath := by dsimp only [simplePath]; infer_instance

instance : Remembers (block read) := by dsimp only [block]; infer_instance

instance : Remembers (outerAttribute read) := by
  dsimp only [outerAttribute, attributeContent]; infer_instance

instance : Remembers (outerAttributes read) := by dsimp only [outerAttributes]; infer_instance

instance : Remembers (innerAttributes read) := by
  dsimp only [innerAttributes, attributeContent]; infer_instance

instance : Remembers (constValue read) := by
  dsimp only [constValue, attributedBlock]; infer_instance

instance (k : Kind) (p : Parser Unit) [Remembers p] : Remembers (extendBinding k p) := by
  dsimp only [extendBinding]
  refine .bind inferInstance fun c => ?_
  split <;> infer_instance

instance (stop : List Token → Bool) (captures conditional : Bool) :
    Remembers (boundsUntil read stop captures conditional) := by
  dsimp only [boundsUntil]; infer_instance

instance (first : Phrase → Bool) (p : Parser Unit) [Remembers p] : Remembers (reorder first p) := by
  dsimp only [reorder]; infer_instance

instance : Remembers (genericArguments read) := by
  dsimp only [genericArguments, genericArgument]; infer_instance

instance (inExpr : Bool) : Remembers (segment read inExpr) := by
  dsimp only [segment]; infer_instance

instance (inExpr : Bool) : Remembers (pathParts read inExpr) := by
  dsimp only [pathParts]; infer_instance

instance (inExpr : Bool) : Remembers (path read inExpr) := by dsimp only [path]; infer_instance

instance (inExpr : Bool) : Remembers (anyPath read inExpr) := by
  dsimp only [anyPath]; infer_instance

instance : Remembers (callArgumentsInPath read) := by
  dsimp only [callArgumentsInPath, callArguments, returnType]
  refine .bind inferInstance fun c => ?_
  split <;> infer_instance

instance (p : Parser Unit) [Remembers p] : Remembers (withBounds p) := by
  dsimp only [withBounds]; infer_instance

instance : Remembers (generics read) := by
  dsimp only [generics, genericParameters, genericParameter, lifetimeBounds]; infer_instance

instance : Remembers (forLifetimes read) := by
  dsimp only [forLifetimes, genericParameters, genericParameter, lifetimeBounds]; infer_instance

instance : Remembers (whereClause read) := by
  dsimp only [whereClause, predicate, lifetimeBounds]; infer_instance

instance (conditional : Bool) : Remembers (traitBoundParts read conditional) := by
  dsimp only [traitBoundParts]; infer_instance

instance (captures conditional : Bool) : Remembers (bound read captures conditional) := by
  dsimp only [bound, capture]; infer_instance

instance (plus captures conditional : Bool) :
    Remembers (bounds read plus captures conditional) := by
  dsimp only [bounds]; infer_instance

instance : Remembers (furtherBounds read) := by dsimp only [furtherBounds]; infer_instance

instance (intro : Parser Unit) (plus captures conditional : Bool) (rule : String)
    [Remembers intro] :
    Remembers (boundsWithTrait read intro plus captures conditional rule) := by
  dsimp only [boundsWithTrait]; infer_instance

instance (intro : Parser Unit) (plus : Bool) [Remembers intro] :
    Remembers (objectBounds read intro plus) := by
  dsimp only [objectBounds]; infer_instance

instance : Remembers macroCall := by dsimp only [macroCall]; infer_instance

instance (first : Bool) : Remembers (functionParameter read first) := by
  dsimp only [functionParameter]; infer_instance

instance (p : Parser Unit) [Remembers p] : Remembers (extendBounds p) := by
  dsimp only [extendBounds]
  refine .bind inferInstance fun c => ?_
  split <;> infer_instance

instance (plus : Bool) : Remembers (parenType read plus) := by
  dsimp only [parenType]
  repeat' first
    | refine .bind inferInstance fun _ => ?_
    | refine .ite ?_ ?_
    | infer_instance
    | split

instance : Remembers pathTypeOrBounds.extendMacro := by
  dsimp only [pathTypeOrBounds.extendMacro]
  refine .bind inferInstance fun c => ?_
  split <;> infer_instance

instance (plus : Bool) (lifetimes : List Phrase) :
    Remembers (pathTypeOrBounds read plus lifetimes) := by
  dsimp only [pathTypeOrBounds]
  repeat' first
    | refine .bind inferInstance fun _ => ?_
    | refine .ite ?_ ?_
    | infer_instance
    | split

instance (k : Kind) : Remembers (builtin k) := by dsimp only [builtin]; infer_instance

instance (plus : Bool) : Remembers (type read plus) := by
  dsimp only [type, functionType, foreignInterface, returnType]
  repeat' first
    | refine .bind inferInstance fun _ => ?_
    | refine .ite ?_ ?_
    | infer_instance
    | split

instance : Remembers (alternatives read) := by
  dsimp only [alternatives, furtherAlternatives]; infer_instance

instance : Remembers (rangeBound read) := by
  dsimp only [rangeBound, attributedBlock]; infer_instance

instance : Remembers rangeDots := by dsimp only [rangeDots]; infer_instance

instance : Remembers (pathPattern.fieldPattern read) := by
  dsimp only [pathPattern.fieldPattern]; infer_instance

instance : Remembers (slicePattern read) := by
  have whole (p : Parser Bool) (_ : Remembers p) :
      Remembers (node .pattern (brackets (repeatWhile p))) := inferInstance
  refine whole _ (.bind inferInstance fun _ => .ite inferInstance (.bind inferInstance fun _ =>
    .bind inferInstance fun c => ?_))
  split <;> infer_instance

instance : Remembers (pattern read) := by
  dsimp only [pattern, pathPattern, rangeFrom, rangeEnd]; infer_instance

instance (braces : Bool) : Remembers (rangeRest read braces) := by
  dsimp only [rangeRest, rightOperand]; infer_instance

instance : Remembers checkCast := by
  dsimp only [checkCast]
  refine .bind inferInstance fun c => ?_
  split <;> infer_instance

instance (braces : Bool) (base : Precedence) : Remembers (operatorStep read braces base) := by
  dsimp only [operatorStep, rightOperand]
  repeat' first
    | refine .bind inferInstance fun _ => ?_
    | refine .ite ?_ ?_
    | infer_instance
    | split

instance (braces : Bool) (base : Precedence) : Remembers (operators read braces base) := by
  dsimp only [operators]; infer_instance

instance (braces : Bool) : Remembers (expr read braces) := by dsimp only [expr]; infer_instance

instance : Remembers (arguments read) := by dsimp only [arguments]; infer_instance

instance (dot : Parser Unit) [Remembers dot] : Remembers (selectMember read dot) := by
  dsimp only [selectMember]; infer_instance

instance : Remembers (selection.selectAfterDot read) := by
  dsimp only [selection.selectAfterDot]; infer_instance

instance : Remembers (selection read) := by
  dsimp only [selection, selectNumbers]
  repeat' first
    | refine .bind inferInstance fun _ => ?_
    | refine .ite ?_ ?_
    | infer_instance
    | split

instance : Remembers (trailers read) := by dsimp only [trailers]; infer_instance

instance : Remembers (ifExpr read) := by dsimp only [ifExpr, subject]; infer_instance

instance : Remembers (matchExpr read) := by
  dsimp only [matchExpr, matchArm, subject]; infer_instance

instance : Remembers (loopOrBlock? read) := by
  dsimp only [loopOrBlock?, subject, attributedBlock]; infer_instance

instance : Remembers (labeled read) := by dsimp only [labeled]; infer_instance

instance (k : Kind) (words : List String) : Remembers (keywordBlock read k words) := by
  dsimp only [keywordBlock, attributedBlock]; infer_instance

instance (braces : Bool) : Remembers (closure read braces) := by
  dsimp only [closure]; infer_instance

instance (k : Kind) (p : Parser Unit) [Remembers p] :
    Remembers (pathMacroOrRecord.extendParts k p) := by
  dsimp only [pathMacroOrRecord.extendParts]
  refine .bind inferInstance fun c => ?_
  split <;> infer_instance

instance (braces : Bool) (attributes : List Phrase) :
    Remembers (attributedOperand read braces attributes) := by
  dsimp only [attributedOperand, operand, arrayOrRepeat, parenOrTuple, pathMacroOrRecord,
    recordFields, fieldValue, breakExpr, jumpExpr]
  repeat' first
    | refine .bind inferInstance fun _ => ?_
    | refine .ite ?_ ?_
    | infer_instance
    | split

instance (braces : Bool) : Remembers (unary read braces) := by dsimp only [unary]; infer_instance

instance : Remembers (early read) := by dsimp only [early]; infer_instance

instance : Remembers macroUse := by
  dsimp only [macroUse]
  repeat' first
    | refine .bind inferInstance fun _ => ?_
    | refine .ite ?_ ?_
    | infer_instance
    | split

instance (attributes : List Phrase) : Remembers (letStatement read attributes) := by
  dsimp only [letStatement]; infer_instance

instance (attributes : List Phrase) : Remembers (expressionStatement read attributes) := by
  dsimp only [expressionStatement]; infer_instance

/-- A declaration is read again from its attributes on. -/
instance : Remembers (statement read) where
  follows {c a d} h := by
    obtain ⟨_, _, got, h⟩ := run_bind_eq_ok.mp h
    cases got
    obtain ⟨_, c₁, attributes, h⟩ := run_bind_eq_ok.mp h
    obtain ⟨use, c₂, looked, h⟩ := run_bind_eq_ok.mp h
    have behind : c.Follows c₂ := (Remembers.follows attributes).trans (Remembers.follows looked)
    obtain ⟨start, c₃, seen, h⟩ := run_bind_eq_ok.mp h
    cases seen
    split at h
    · exact behind.trans (Remembers.follows h)
    · split at h
      · exact behind.trans (Remembers.follows h)
      · split at h
        · obtain ⟨_, _, restarted, h⟩ := run_bind_eq_ok.mp h
          cases restarted
          exact Remembers.follows h
        · exact behind.trans (Remembers.follows h)

instance : Remembers (statements read) := by dsimp only [statements]; infer_instance

instance : Remembers itemName := by dsimp only [itemName]; infer_instance

instance : Remembers nameOrUnderscore := by dsimp only [nameOrUnderscore]; infer_instance

instance : Remembers restriction := by
  dsimp only [restriction]
  refine .bind inferInstance fun restricted => ?_
  split <;> infer_instance

instance : Remembers visibility := by dsimp only [visibility]; infer_instance

instance : Remembers (receiver read) := by dsimp only [receiver]; infer_instance

instance (attributes : List Phrase) : Remembers (parameter read attributes) := by
  dsimp only [parameter]
  repeat' first
    | refine .bind inferInstance fun _ => ?_
    | refine .ite ?_ ?_
    | infer_instance
    | split

instance : Remembers (parameters read) := by dsimp only [parameters]; infer_instance

instance (safe : Bool) : Remembers (signature read safe) := by
  dsimp only [signature, foreignInterface, returnType]; infer_instance

instance : Remembers (functionBody read) := by dsimp only [functionBody]; infer_instance

instance : Remembers (initialValue read) := by dsimp only [initialValue]; infer_instance

instance : Remembers (constant read) := by dsimp only [constant]; infer_instance

instance (conditional : Bool) (stop : List Token → Bool) :
    Remembers (strictBounds read conditional stop) := by
  dsimp only [strictBounds]; infer_instance

instance (place : ClausePlace) : Remembers (typeDeclaration read place) := by
  dsimp only [typeDeclaration]; infer_instance

instance (named : Bool) : Remembers (macroItem named) := by dsimp only [macroItem]; infer_instance

instance : Remembers (traitItem.traitConstant read) := by
  dsimp only [traitItem.traitConstant]; infer_instance

instance : Remembers (traitItem read) := by dsimp only [traitItem, traitMethod]; infer_instance

instance : Remembers (traitDeclaration read) := by
  dsimp only [traitDeclaration, restOfTrait]; infer_instance

instance : Remembers (traitOrAlias read) := by
  dsimp only [traitOrAlias, restOfTrait]; infer_instance

instance (rooted : Bool) : Remembers (useTree read rooted) := by
  dsimp only [useTree]; infer_instance

instance : Remembers (namedFields read) := by dsimp only [namedFields, namedField]; infer_instance

instance : Remembers (structDeclaration read) := by
  dsimp only [structDeclaration, tupleFields]; infer_instance

instance : Remembers (enumDeclaration read) := by
  dsimp only [enumDeclaration, variant, tupleFields]; infer_instance

instance : Remembers (implMember read) := by dsimp only [implMember]; infer_instance

instance : Remembers (implDeclaration read) := by
  dsimp only [implDeclaration]
  refine .bind inferInstance fun before => .bind (.collect ?_) fun _ => inferInstance
  repeat' first
    | refine .bind inferInstance fun _ => ?_
    | refine .ite ?_ ?_
    | infer_instance

instance : Remembers (foreignDeclaration read) := by
  dsimp only [foreignDeclaration, foreignMember, foreignInterface]; infer_instance

instance : Remembers (itemAfterAttributes read) := by
  dsimp only [itemAfterAttributes, functionDeclaration, macroDeclaration, staticDeclaration,
    externCrate, moduleDeclaration, unionDeclaration, useDeclaration]
  infer_instance

instance : Remembers (item read) := by dsimp only [item]; infer_instance

instance (nonterminal : Nonterminal) : Remembers (rule read nonterminal) := by
  cases nonterminal <;> dsimp only [rule] <;> infer_instance

instance (n : Nat) (nonterminal : Nonterminal) : Remembers (reader n nonterminal) := by
  induction n generalizing nonterminal with
  | zero => dsimp only [reader]; infer_instance
  | succ n ih => dsimp only [reader]; infer_instance

end Grammar

end FormulaBinding
