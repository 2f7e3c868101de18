import FormulaBinding.Proofs.Grammar.Steps

/-!
# What a reading leaves ahead

Whatever a rule of the grammar reads, the tokens that it leaves ahead are the last ones of those that
were ahead before. The rules are taken in the order of the grammar.
-/

namespace FormulaBinding

/-- What is ahead afterwards is an end of what was ahead before. -/
def Parser.Remains (ts us : List Token) : Prop := us <:+ ts

namespace Parser

instance : Progress Remains where
  refl _ := List.suffix_rfl
  trans first second := second.trans first
  group _ _ _ _ _ := List.suffix_cons _ _

instance : Advances Remains skip where
  rest h := by
    cases h
    exact List.drop_suffix _ _

instance (m : String) : Advances Remains (dropMark m) where
  rest h := by
    cases h
    exact List.drop_suffix _ _

instance : Advances Remains take := by
  unfold take
  refine .bind inferInstance fun c => ?_
  split <;> infer_instance

instance (w : String) : Advances Remains (word w) := by dsimp only [word]; infer_instance

instance (w : String) : Advances Remains (word? w) := by dsimp only [word?]; infer_instance

instance (n : Nat) : Advances Remains (takeMarks n) := by
  induction n with
  | zero => dsimp only [takeMarks]; infer_instance
  | succ n ih =>
    unfold takeMarks
    refine .bind inferInstance fun c => ?_
    split <;> infer_instance

instance (m : String) : Advances Remains (mark m) := by dsimp only [mark]; infer_instance

instance (m : String) : Advances Remains (mark? m) := by dsimp only [mark?]; infer_instance

instance : Advances Remains name := by
  unfold name
  refine .bind inferInstance fun c => ?_
  split <;> infer_instance

instance : Advances Remains anyName := by dsimp only [anyName]; infer_instance

instance : Advances Remains lifetime := by dsimp only [lifetime]; infer_instance

instance : Advances Remains lifetime? := by dsimp only [lifetime?]; infer_instance

instance : Advances Remains literal := by
  unfold literal
  refine .bind inferInstance fun c => ?_
  split <;> infer_instance

instance : Advances Remains stringLiteral := by dsimp only [stringLiteral]; infer_instance

instance (text : String) (place : Extent) : Advances Remains (fieldPosition text place) := by
  unfold fieldPosition
  split <;> infer_instance

instance : Advances Remains fieldNumber := by
  unfold fieldNumber
  refine .bind inferInstance fun c => ?_
  split <;> infer_instance

instance : Advances Remains anyGroup := by
  unfold anyGroup
  refine .bind inferInstance fun c => ?_
  split <;> infer_instance

instance (m : String) (p : Parser Unit) [Advances Remains p] :
    Advances Remains (separated m p) := by
  dsimp only [separated]; infer_instance

end Parser

namespace Grammar
open FormulaBinding.Parser

-- A rule has more steps than the search for instances looks at by default.
set_option synthInstance.maxSize 100000

variable {read : Reader} [∀ nonterminal, Advances Remains (read nonterminal)]

instance : Advances Remains simplePath := by dsimp only [simplePath]; infer_instance

instance : Advances Remains (block read) := by dsimp only [block]; infer_instance

instance : Advances Remains (attributeContent read) := by
  dsimp only [attributeContent]; infer_instance

instance : Advances Remains (outerAttribute read) := by dsimp only [outerAttribute]; infer_instance

instance : Advances Remains (outerAttributes read) := by
  dsimp only [outerAttributes]; infer_instance

instance : Advances Remains (innerAttributes read) := by
  dsimp only [innerAttributes]; infer_instance

instance : Advances Remains (attributedBlock read) := by
  dsimp only [attributedBlock]; infer_instance

instance : Advances Remains (constValue read) := by dsimp only [constValue]; infer_instance

instance (k : Kind) (p : Parser Unit) [Advances Remains p] :
    Advances Remains (extendBinding k p) := by
  dsimp only [extendBinding]
  refine .bind inferInstance fun c => ?_
  split <;> infer_instance

instance (stop : List Token → Bool) (captures conditional : Bool) :
    Advances Remains (boundsUntil read stop captures conditional) := by
  dsimp only [boundsUntil]; infer_instance

instance : Advances Remains (genericArgument read) := by
  dsimp only [genericArgument]; infer_instance

instance (first : Phrase → Bool) (p : Parser Unit) [Advances Remains p] :
    Advances Remains (reorder first p) := by
  dsimp only [reorder]; infer_instance

instance : Advances Remains (genericArguments read) := by
  dsimp only [genericArguments]; infer_instance

instance (plus : Bool) : Advances Remains (returnType read plus) := by
  dsimp only [returnType]; infer_instance

instance : Advances Remains (callArguments read) := by dsimp only [callArguments]; infer_instance

instance (inExpr : Bool) : Advances Remains (segment read inExpr) := by
  dsimp only [segment]; infer_instance

instance (inExpr : Bool) : Advances Remains (pathParts read inExpr) := by
  dsimp only [pathParts]; infer_instance

instance (inExpr : Bool) : Advances Remains (path read inExpr) := by
  dsimp only [path]; infer_instance

instance (inExpr : Bool) : Advances Remains (anyPath read inExpr) := by
  dsimp only [anyPath]; infer_instance

instance : Advances Remains (callArgumentsInPath read) := by
  dsimp only [callArgumentsInPath]
  refine .bind inferInstance fun c => ?_
  split <;> infer_instance

instance (stop : List Token → Bool) : Advances Remains (lifetimeBounds stop) := by
  dsimp only [lifetimeBounds]; infer_instance

instance (p : Parser Unit) [Advances Remains p] : Advances Remains (withBounds p) := by
  dsimp only [withBounds]; infer_instance

instance (declared : Bool) : Advances Remains (genericParameter read declared) := by
  dsimp only [genericParameter]; infer_instance

instance (declared : Bool) : Advances Remains (genericParameters read declared) := by
  dsimp only [genericParameters]; infer_instance

instance : Advances Remains (generics read) := by dsimp only [generics]; infer_instance

instance : Advances Remains (forLifetimes read) := by dsimp only [forLifetimes]; infer_instance

instance : Advances Remains (predicate read) := by dsimp only [predicate]; infer_instance

instance : Advances Remains (whereClause read) := by dsimp only [whereClause]; infer_instance

instance (conditional : Bool) : Advances Remains (traitBoundParts read conditional) := by
  dsimp only [traitBoundParts]; infer_instance

instance : Advances Remains capture := by dsimp only [capture]; infer_instance

instance (captures conditional : Bool) : Advances Remains (bound read captures conditional) := by
  dsimp only [bound]; infer_instance

instance (plus captures conditional : Bool) :
    Advances Remains (bounds read plus captures conditional) := by
  dsimp only [bounds]; infer_instance

instance : Advances Remains (furtherBounds read) := by dsimp only [furtherBounds]; infer_instance

instance (intro : Parser Unit) (plus captures conditional : Bool) (rule : String)
    [Advances Remains intro] :
    Advances Remains (boundsWithTrait read intro plus captures conditional rule) := by
  dsimp only [boundsWithTrait]; infer_instance

instance (intro : Parser Unit) (plus : Bool) [Advances Remains intro] :
    Advances Remains (objectBounds read intro plus) := by
  dsimp only [objectBounds]; infer_instance

instance : Advances Remains macroCall := by dsimp only [macroCall]; infer_instance

instance : Advances Remains foreignInterface := by dsimp only [foreignInterface]; infer_instance

instance (first : Bool) : Advances Remains (functionParameter read first) := by
  dsimp only [functionParameter]; infer_instance

instance : Advances Remains (functionType read) := by dsimp only [functionType]; infer_instance

instance (p : Parser Unit) [Advances Remains p] : Advances Remains (extendBounds p) := by
  dsimp only [extendBounds]
  refine .bind inferInstance fun c => ?_
  split <;> infer_instance

instance (plus : Bool) : Advances Remains (parenType read plus) := by
  dsimp only [parenType]
  repeat' first
    | refine .bind inferInstance fun _ => ?_
    | refine .ite ?_ ?_
    | infer_instance
    | split

instance : Advances Remains pathTypeOrBounds.extendMacro := by
  dsimp only [pathTypeOrBounds.extendMacro]
  refine .bind inferInstance fun c => ?_
  split <;> infer_instance

instance (plus : Bool) (lifetimes : List Phrase) :
    Advances Remains (pathTypeOrBounds read plus lifetimes) := by
  dsimp only [pathTypeOrBounds]
  repeat' first
    | refine .bind inferInstance fun _ => ?_
    | refine .ite ?_ ?_
    | infer_instance
    | split

instance (k : Kind) : Advances Remains (builtin k) := by dsimp only [builtin]; infer_instance

instance (plus : Bool) : Advances Remains (type read plus) := by
  dsimp only [type]
  repeat' first
    | refine .bind inferInstance fun _ => ?_
    | refine .ite ?_ ?_
    | infer_instance
    | split

instance : Advances Remains (furtherAlternatives read) := by
  dsimp only [furtherAlternatives]; infer_instance

instance : Advances Remains (alternatives read) := by dsimp only [alternatives]; infer_instance

instance : Advances Remains (rangeBound read) := by dsimp only [rangeBound]; infer_instance

instance : Advances Remains rangeDots := by dsimp only [rangeDots]; infer_instance

instance : Advances Remains (rangeEnd read) := by dsimp only [rangeEnd]; infer_instance

instance : Advances Remains (rangeFrom read) := by dsimp only [rangeFrom]; infer_instance

instance : Advances Remains (pathPattern.fieldPattern read) := by
  dsimp only [pathPattern.fieldPattern]; infer_instance

instance : Advances Remains (pathPattern read) := by dsimp only [pathPattern]; infer_instance

instance : Advances Remains (slicePattern read) := by dsimp only [slicePattern]; infer_instance

instance : Advances Remains (pattern read) := by dsimp only [pattern]; infer_instance

instance (braces : Bool) (p : Precedence) : Advances Remains (rightOperand read braces p) := by
  dsimp only [rightOperand]; infer_instance

instance (braces : Bool) : Advances Remains (rangeRest read braces) := by
  dsimp only [rangeRest]; infer_instance

instance : Advances Remains checkCast := by
  dsimp only [checkCast]
  refine .bind inferInstance fun c => ?_
  split <;> infer_instance

instance (braces : Bool) (base : Precedence) :
    Advances Remains (operatorStep read braces base) := by
  dsimp only [operatorStep]
  repeat' first
    | refine .bind inferInstance fun _ => ?_
    | refine .ite ?_ ?_
    | infer_instance
    | split

instance (braces : Bool) (base : Precedence) : Advances Remains (operators read braces base) := by
  dsimp only [operators]; infer_instance

instance (braces : Bool) : Advances Remains (expr read braces) := by
  dsimp only [expr]; infer_instance

instance : Advances Remains (arguments read) := by dsimp only [arguments]; infer_instance

instance (text : String) (place : Extent) : Advances Remains (selectNumbers text place) := by
  dsimp only [selectNumbers]; infer_instance

instance (dot : Parser Unit) [Advances Remains dot] : Advances Remains (selectMember read dot) := by
  dsimp only [selectMember]; infer_instance

instance : Advances Remains (selection.selectAfterDot read) := by
  dsimp only [selection.selectAfterDot]; infer_instance

instance : Advances Remains (selection read) := by
  dsimp only [selection]
  repeat' first
    | refine .bind inferInstance fun _ => ?_
    | refine .ite ?_ ?_
    | infer_instance
    | split

instance : Advances Remains (trailers read) := by dsimp only [trailers]; infer_instance

instance : Advances Remains (subject read) := by dsimp only [subject]; infer_instance

instance : Advances Remains (ifExpr read) := by dsimp only [ifExpr]; infer_instance

instance : Advances Remains (matchArm read) := by dsimp only [matchArm]; infer_instance

instance : Advances Remains (matchExpr read) := by dsimp only [matchExpr]; infer_instance

instance : Advances Remains (loopOrBlock? read) := by dsimp only [loopOrBlock?]; infer_instance

instance : Advances Remains (labeled read) := by dsimp only [labeled]; infer_instance

instance (k : Kind) (words : List String) : Advances Remains (keywordBlock read k words) := by
  dsimp only [keywordBlock]; infer_instance

instance (braces : Bool) : Advances Remains (closure read braces) := by
  dsimp only [closure]; infer_instance

instance (k : Kind) (w : String) : Advances Remains (jumpExpr read k w) := by
  dsimp only [jumpExpr]; infer_instance

instance (braces : Bool) : Advances Remains (breakExpr read braces) := by
  dsimp only [breakExpr]; infer_instance

instance : Advances Remains (fieldValue read) := by dsimp only [fieldValue]; infer_instance

instance : Advances Remains (recordFields read) := by dsimp only [recordFields]; infer_instance

instance (k : Kind) (p : Parser Unit) [Advances Remains p] :
    Advances Remains (pathMacroOrRecord.extendParts k p) := by
  dsimp only [pathMacroOrRecord.extendParts]
  refine .bind inferInstance fun c => ?_
  split <;> infer_instance

instance (braces : Bool) : Advances Remains (pathMacroOrRecord read braces) := by
  dsimp only [pathMacroOrRecord]; infer_instance

instance : Advances Remains (parenOrTuple read) := by dsimp only [parenOrTuple]; infer_instance

instance : Advances Remains (arrayOrRepeat read) := by dsimp only [arrayOrRepeat]; infer_instance

instance (braces : Bool) : Advances Remains (operand read braces) := by
  dsimp only [operand]; infer_instance

instance (braces : Bool) (attributes : List Phrase) :
    Advances Remains (attributedOperand read braces attributes) := by
  dsimp only [attributedOperand]
  repeat' first
    | refine .bind inferInstance fun _ => ?_
    | refine .ite ?_ ?_
    | infer_instance
    | split

instance (braces : Bool) : Advances Remains (unary read braces) := by
  dsimp only [unary]; infer_instance

instance : Advances Remains (early read) := by dsimp only [early]; infer_instance

instance : Advances Remains macroUse := by
  dsimp only [macroUse]
  repeat' first
    | refine .bind inferInstance fun _ => ?_
    | refine .ite ?_ ?_
    | infer_instance
    | split

instance (attributes : List Phrase) : Advances Remains (letStatement read attributes) := by
  dsimp only [letStatement]; infer_instance

instance (attributes : List Phrase) : Advances Remains (expressionStatement read attributes) := by
  dsimp only [expressionStatement]; infer_instance

/-- A declaration is read again from its attributes on. -/
instance : Advances Remains (statement read) where
  rest {c a d} h := by
    obtain ⟨_, _, got, h⟩ := run_bind_eq_ok.mp h
    cases got
    obtain ⟨_, c₁, attributes, h⟩ := run_bind_eq_ok.mp h
    obtain ⟨use, c₂, looked, h⟩ := run_bind_eq_ok.mp h
    have behind : Remains c.rest c₂.rest :=
      Progress.trans (Advances.rest attributes) (Advances.rest looked)
    obtain ⟨start, c₃, seen, h⟩ := run_bind_eq_ok.mp h
    cases seen
    split at h
    · exact Progress.trans behind (Advances.rest h)
    · split at h
      · exact Progress.trans behind (Advances.rest h)
      · split at h
        · obtain ⟨_, _, restarted, h⟩ := run_bind_eq_ok.mp h
          cases restarted
          exact Advances.rest (R := Remains) h
        · exact Progress.trans behind (Advances.rest h)

instance : Advances Remains (statements read) := by dsimp only [statements]; infer_instance

instance : Advances Remains itemName := by dsimp only [itemName]; infer_instance

instance : Advances Remains nameOrUnderscore := by dsimp only [nameOrUnderscore]; infer_instance

instance : Advances Remains restriction := by
  dsimp only [restriction]
  refine .bind inferInstance fun restricted => ?_
  split <;> infer_instance

instance : Advances Remains visibility := by dsimp only [visibility]; infer_instance

instance : Advances Remains (receiver read) := by dsimp only [receiver]; infer_instance

instance (attributes : List Phrase) : Advances Remains (parameter read attributes) := by
  dsimp only [parameter]
  repeat' first
    | refine .bind inferInstance fun _ => ?_
    | refine .ite ?_ ?_
    | infer_instance
    | split

instance : Advances Remains (parameters read) := by dsimp only [parameters]; infer_instance

instance (safe : Bool) : Advances Remains (signature read safe) := by
  dsimp only [signature]; infer_instance

instance : Advances Remains (functionBody read) := by dsimp only [functionBody]; infer_instance

instance : Advances Remains (initialValue read) := by dsimp only [initialValue]; infer_instance

instance : Advances Remains (constant read) := by dsimp only [constant]; infer_instance

instance (conditional : Bool) (stop : List Token → Bool) :
    Advances Remains (strictBounds read conditional stop) := by
  dsimp only [strictBounds]; infer_instance

instance (place : ClausePlace) : Advances Remains (typeDeclaration read place) := by
  dsimp only [typeDeclaration]; infer_instance

instance (named : Bool) : Advances Remains (macroItem named) := by
  dsimp only [macroItem]; infer_instance

instance : Advances Remains (traitMethod read) := by dsimp only [traitMethod]; infer_instance

instance : Advances Remains (traitItem.traitConstant read) := by
  dsimp only [traitItem.traitConstant]; infer_instance

instance : Advances Remains (traitItem read) := by dsimp only [traitItem]; infer_instance

instance : Advances Remains (restOfTrait read) := by dsimp only [restOfTrait]; infer_instance

instance : Advances Remains (traitDeclaration read) := by
  dsimp only [traitDeclaration]; infer_instance

instance : Advances Remains (traitOrAlias read) := by dsimp only [traitOrAlias]; infer_instance

instance (rooted : Bool) : Advances Remains (useTree read rooted) := by
  dsimp only [useTree]; infer_instance

instance : Advances Remains (useDeclaration read) := by dsimp only [useDeclaration]; infer_instance

instance : Advances Remains (namedField read) := by dsimp only [namedField]; infer_instance

instance : Advances Remains (namedFields read) := by dsimp only [namedFields]; infer_instance

instance : Advances Remains (tupleFields read) := by dsimp only [tupleFields]; infer_instance

instance : Advances Remains (structDeclaration read) := by
  dsimp only [structDeclaration]; infer_instance

instance : Advances Remains (variant read) := by dsimp only [variant]; infer_instance

instance : Advances Remains (enumDeclaration read) := by
  dsimp only [enumDeclaration]; infer_instance

instance : Advances Remains (unionDeclaration read) := by
  dsimp only [unionDeclaration]; infer_instance

instance : Advances Remains (implMember read) := by dsimp only [implMember]; infer_instance

instance : Advances Remains (implDeclaration read) := by
  dsimp only [implDeclaration]
  refine .bind inferInstance fun before => .bind (.collect ?_) fun _ => inferInstance
  repeat' first
    | refine .bind inferInstance fun _ => ?_
    | refine .ite ?_ ?_
    | infer_instance

instance : Advances Remains (foreignMember read) := by dsimp only [foreignMember]; infer_instance

instance : Advances Remains (foreignDeclaration read) := by
  dsimp only [foreignDeclaration]; infer_instance

instance : Advances Remains (moduleDeclaration read) := by
  dsimp only [moduleDeclaration]; infer_instance

instance : Advances Remains externCrate := by dsimp only [externCrate]; infer_instance

instance : Advances Remains (staticDeclaration read) := by
  dsimp only [staticDeclaration]; infer_instance

instance : Advances Remains macroDeclaration := by dsimp only [macroDeclaration]; infer_instance

instance : Advances Remains (functionDeclaration read) := by
  dsimp only [functionDeclaration]; infer_instance

instance : Advances Remains (itemAfterAttributes read) := by
  dsimp only [itemAfterAttributes]; infer_instance

instance : Advances Remains (item read) := by dsimp only [item]; infer_instance

instance (nonterminal : Nonterminal) : Advances Remains (rule read nonterminal) := by
  cases nonterminal <;> dsimp only [rule] <;> infer_instance

instance (n : Nat) (nonterminal : Nonterminal) : Advances Remains (reader n nonterminal) := by
  induction n generalizing nonterminal with
  | zero => dsimp only [reader]; infer_instance
  | succ n ih => dsimp only [reader]; infer_instance

end Grammar

end FormulaBinding
