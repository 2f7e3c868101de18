import FormulaBinding.Proofs.Grammar.KeptTypes

/-!
# Bounds and arguments that are written as they are read

Paths as types and as bounds, lists of bounds, types of objects, and the arguments of a path.
-/

namespace FormulaBinding.Grammar
open FormulaBinding.Parser FormulaBinding.Token

variable {read : Reader} {plus captures conditional t t' : Bool} {c d : Cursor} {j : Bool}
  {e : Extent} {w : String} {S T ts us : List Token}

/-! ## Paths -/

/-- Words that the path of a type may start with though they are reserved. -/
def rootWords : List String := ["super", "self", "Self", "crate"]

/-- How the tokens of a path of a type start. -/
inductive StartsPlainPath : List Token → Prop
  | word {w : String} {S : List Token} (head : w ∉ reservedWords ∨ w ∈ rootWords)
    (behind : NoHash S) : StartsPlainPath (.name w Extent.nowhere :: S)
  | root {j : Bool} {S : List Token} :
    StartsPlainPath (.mark ':' true Extent.nowhere :: .mark ':' j Extent.nowhere :: S)

namespace StartsPlainPath

variable (h : StartsPlainPath S)
include h

theorem startsType : StartsType S := by
  cases h with
  | word head =>
    exact .word (head.imp_right fun mem => by
      simp only [rootWords, typeWords, List.mem_cons, List.not_mem_nil, or_false] at mem ⊢
      tauto)
  | root => exact .mark (by decide)

theorem ahead_oneOf {ws : List String} (words : ∀ v ∈ ws, v ∈ reservedWords ∧ v ∉ rootWords)
    (spells : Respells ts S) (us : List Token) : Ahead.oneOf ws (ts ++ us) = false := by
  cases h with
  | root => cases spells; rfl
  | @word w _ head =>
    cases spells
    refine Bool.eq_false_iff.mpr fun mem => ?_
    obtain ⟨reserved, other⟩ := words w (List.contains_iff_mem.mp mem)
    exact head.elim (absurd reserved) (absurd · other)

theorem ahead_word {v : String} (reserved : v ∈ reservedWords) (other : v ∉ rootWords)
    (spells : Respells ts S) (us : List Token) : Ahead.word v (ts ++ us) = false := by
  have none : Ahead.oneOf [v] (ts ++ us) = false :=
    h.ahead_oneOf (by simpa using ⟨reserved, other⟩) spells us
  cases h with
  | root => cases spells; rfl
  | word =>
    cases spells
    simpa [Ahead.oneOf, Ahead.word] using none

theorem ahead_group (d : Delimiter) (spells : Respells ts S) (us : List Token) :
    Ahead.group d (ts ++ us) = false := by
  cases h <;> cases spells <;> rfl

theorem ahead_mark {m : String} {x : Char} {s : List Char} (chars : m.toList = x :: s)
    (other : x ≠ ':') (spells : Respells ts S) (us : List Token) : Ahead.mark m (ts ++ us) = false := by
  have differ : (x == ':') = false := beq_eq_false_iff_ne.mpr other
  rw [Ahead.mark, chars]
  cases h with
  | word => cases spells; cases s <;> rfl
  | root => cases spells; cases s <;> simp [Ahead.markChars, differ]

theorem pathAhead (spells : Respells ts S) (us : List Token) :
    Grammar.pathAhead (ts ++ us) = true := by
  cases h with
  | @word w _ head =>
    cases spells with
    | @name _ e _ ts _ _ =>
      rcases head with free | mem
      · have named : Ahead.name (.name w e :: (ts ++ us)) = true := ahead_name free
        simp [Grammar.pathAhead, named]
      · have special : Ahead.oneOf ["super", "self", "Self", "crate"] (.name w e :: (ts ++ us)) =
            true := List.contains_iff_mem.mpr mem
        simp [Grammar.pathAhead, special]
  | root =>
    cases spells with
    | mark joined spells =>
      cases spells
      cases joined rfl
      rfl

theorem builtinAhead (spells : Respells ts S) (none : Ahead.mark "#" us = false) :
    Grammar.builtinAhead (ts ++ us) = false := by
  cases h with
  | word _ behind =>
    cases spells with
    | name spells =>
      have hash := behind spells none
      rw [Grammar.builtinAhead, List.cons_append, List.drop_succ_cons, List.drop_zero, hash,
        Bool.and_false]
  | root => cases spells; rfl

theorem type_eq (spells : Respells ts S) (none : Ahead.mark "#" us = false)
    (rest : c.rest = ts ++ us) : type read plus c = pathTypeOrBounds read plus [] c := by
  refine type_eq_of_pathAhead ?_ ?_ ?_ ?_ ?_ <;> rw [rest]
  · exact h.ahead_word (by decide) (by decide) spells us
  · exact h.ahead_group _ spells us
  · exact h.ahead_oneOf (by decide) spells us
  · exact h.builtinAhead spells none
  · exact h.pathAhead spells us

end StartsPlainPath

/-- Whether tokens are read as a path of a type that is kept. -/
structure KeepsPath (S : List Token) : Prop where
  starts : StartsPlainPath S
  reads : ReadsPath S

theorem keepsPath_segments (head : w ∉ reservedWords ∨ w ∈ rootWords)
    (h : ReadsSegment (.name w Extent.nowhere :: S)) (others : ReadsFurther T) :
    KeepsPath (.name w Extent.nowhere :: S ++ T) := by
  obtain ⟨_, _, same, noHash⟩ := h.starts
  cases same
  exact ⟨.word head (noHash.append others.noHash), readsPath_segments h others⟩

theorem keepsPath_rooted (h : ReadsSegment S) (others : ReadsFurther T) :
    KeepsPath ((op "::" ++ S) ++ T) :=
  ⟨.root, readsPath_rooted h others⟩

theorem KeepsPath.keepsType (h : KeepsPath S) : KeepsType plus S := by
  refine ⟨h.starts.startsType, ⟨fun {n ts us c} enough spells ends rest => ?_⟩⟩
  obtain ⟨_, ⟨parts, -, rfl⟩, kept, run⟩ :=
    h.reads.run (c := { c with row := [] }) enough spells ends.path rest
  have path : anyPath (reader n) false { c with row := [] } =
      .ok ((), { c with rest := us, row := [.node .path parts] }) := by
    refine run_bind_eq_ok.mpr ⟨_, _, peek_run _, ?_⟩
    simp only [rest, h.starts.ahead_mark (m := "<") (x := '<') (s := []) rfl (by decide) spells us,
      Bool.false_eq_true, if_false]
    exact rest ▸ run
  refine ⟨[.node .pathType [.node .path parts]], ⟨_, rfl⟩, kept.node (by decide) (by decide), ?_⟩
  rw [h.starts.type_eq spells (ends.marks "#" (by decide)) rest]
  exact pathTypeOrBounds_run path (.inr (ends.marks "!" (by decide))) ends.bounds

/-! ## Single bounds -/

def isTraitBound (q : Phrase) : Bool := q.is .traitBound || q.is .verbatimBound

/-- Whether tokens are read as a bound that is kept, one that is no lifetime if `t`. -/
structure KeepsBound (t : Bool) (S : List Token) : Prop where
  starts : ∀ conditional {ts}, Respells ts S → ∀ us, boundAhead conditional (ts ++ us) = true
  plain : ∀ {ts}, Respells ts S → ∀ us, Ahead.mark "*" (ts ++ us) = false
  length : 0 < S.length
  reads : ∀ captures conditional, Reads 0 (fun read => bound read captures conditional)
    (EndsPlain false) (fun qs => ∃ q, qs = [q] ∧ isTraitBound q = t) S

theorem keepsBound_lifetime (text : String) : KeepsBound false [.lifetime text Extent.nowhere] := by
  refine ⟨fun conditional ts spells us => ?_, fun spells us => ?_, by simp, fun captures conditional => ?_⟩
  · cases spells
    simp [boundAhead, Ahead.lifetime]
  · cases spells
    rfl
  · refine (((Reads.lifetime text (k := 0)).node (r := .lifetimeBound) (by decide)
      (by decide)).congr ?_).mono (Nat.le_refl _) (fun _ _ => trivial) ?_
    · intro read c d ts us spells _ rest run
      rcases c with ⟨_, inside, leftover, row⟩
      cases spells
      cases rest
      exact run
    · rintro _ ⟨parts, -, rfl⟩
      exact ⟨_, rfl, rfl⟩

def boundTests : List (List Token → Bool) :=
  [Ahead.lifetime, Ahead.word "use", Ahead.group .parenthesis, Ahead.word "for",
    Ahead.group .bracket, Ahead.word "const"]

theorem forLifetimes_none (none : Ahead.word "for" c.rest = false) :
    forLifetimes read c = .ok (false, c) := by
  refine run_bind_eq_ok.mpr ⟨_, _, peek_run _, ?_⟩
  rw [none]
  rfl

theorem traitBoundParts_run {d' : Cursor} {optional : Bool}
    (none : ∀ test ∈ boundTests, test c.rest = false) (first : mark? "?" c = .ok (optional, d))
    (noFor : Ahead.word "for" d.rest = false)
    (behind : (path read false >>= fun _ => callArgumentsInPath read) d = .ok ((), d')) :
    traitBoundParts read conditional c = .ok (true, d') := by
  simp only [boundTests, List.forall_mem_cons, List.not_mem_nil, false_imp_iff, implies_true,
    and_true] at none
  obtain ⟨-, -, -, noFor', noBracket, noConst⟩ := none
  obtain ⟨_, e, path, call⟩ := run_bind_eq_ok.mp behind
  refine run_bind_eq_ok.mpr ⟨_, _, forLifetimes_none noFor', run_bind_eq_ok.mpr ⟨_, _, rfl, ?_⟩⟩
  refine run_bind_eq_ok.mpr ⟨_, _, peek_run _, ?_⟩
  simp only [noBracket, Bool.false_eq_true, if_false]
  refine run_bind_eq_ok.mpr ⟨_, _, peek_run _, ?_⟩
  simp only [noConst, Bool.false_eq_true, if_false]
  refine run_bind_eq_ok.mpr ⟨_, _, rfl, run_bind_eq_ok.mpr ⟨_, _, first, ?_⟩⟩
  cases optional with
  | true => exact run_bind_eq_ok.mpr ⟨_, _, forLifetimes_none noFor, run_bind_eq_ok.mpr
      ⟨_, _, path, run_bind_eq_ok.mpr ⟨_, _, call, rfl⟩⟩⟩
  | false => exact run_bind_eq_ok.mpr ⟨_, _, rfl, run_bind_eq_ok.mpr
      ⟨_, _, path, run_bind_eq_ok.mpr ⟨_, _, call, rfl⟩⟩⟩

theorem bound_run {d' : Cursor} {optional : Bool} (none : ∀ test ∈ boundTests, test c.rest = false)
    (first : mark? "?" { c with row := [] } = .ok (optional, d))
    (noFor : Ahead.word "for" d.rest = false)
    (behind : (path read false >>= fun _ => callArgumentsInPath read) d = .ok ((), d')) :
    bound read captures conditional c =
      .ok ((), { d' with row := .node .traitBound d'.row.reverse :: c.row }) := by
  have parts : traitBoundParts read conditional { c with row := [] } = .ok (true, d') :=
    traitBoundParts_run none first noFor behind
  simp only [boundTests, List.forall_mem_cons, List.not_mem_nil, false_imp_iff, implies_true,
    and_true] at none
  obtain ⟨noLifetime, noUse, noParen, -, -, -⟩ := none
  refine run_bind_eq_ok.mpr ⟨_, _, rfl, run_bind_eq_ok.mpr ⟨_, _, peek_run _, ?_⟩⟩
  simp only [noLifetime, Bool.false_eq_true, if_false]
  refine run_bind_eq_ok.mpr ⟨_, _, peek_run _, ?_⟩
  simp only [noUse, Bool.false_eq_true, if_false]
  refine run_bind_eq_ok.mpr ⟨_, _, rfl, run_bind_eq_ok.mpr ⟨(true, d'.row.reverse),
    { d' with row := c.row }, collect_eq_ok.mpr ⟨d', run_bind_eq_ok.mpr ⟨_, _, peek_run _, ?_⟩,
      rfl, rfl⟩, rfl⟩⟩
  simp only [noParen, Bool.false_eq_true, if_false]
  exact parts

/-- Whether tokens are read as the path of a bound, with the arguments of a function behind it if it
has some. -/
structure KeepsTrait (S : List Token) : Prop where
  starts : StartsPlainPath S
  reads : Reads 0 (fun read => path read false >>= fun _ => callArgumentsInPath read)
    (EndsPlain false) (fun qs => ∃ q, qs = [q]) S

theorem KeepsPath.keepsTrait (h : KeepsPath S) : KeepsTrait S := by
  refine ⟨h.starts, ⟨fun {n ts us c} enough spells ends rest => ?_⟩⟩
  obtain ⟨_, ⟨parts, -, rfl⟩, kept, run⟩ := h.reads.run enough spells ends.path rest
  refine ⟨_, ⟨_, rfl⟩, kept, run_bind_eq_ok.mpr ⟨_, _, run, run_bind_eq_ok.mpr ⟨_, _, rfl, ?_⟩⟩⟩
  refine run_bind_eq_ok.mpr ⟨_, _, peek_run _, ?_⟩
  simp only [ends.callAhead, Bool.and_false, Bool.false_eq_true, if_false]
  rfl

def arrowTokens : Option (List Token) → List Token
  | some T => op "->" ++ T
  | none => []

theorem reads_returnType {result : Option (List Token)}
    (h : ∀ T, result = some T → KeepsType false T) :
    Reads 0 (fun read => returnType read false) (EndsPlain false) Whatever (arrowTokens result) := by
  cases result with
  | none =>
    refine ⟨fun {n ts us c} _ spells ends rest => ?_⟩
    rcases c with ⟨_, inside, leftover, row⟩
    cases spells
    cases rest
    refine ⟨[], trivial, .nil, run_bind_eq_ok.mpr ⟨_, _, peek_run _, ?_⟩⟩
    simp only [ends.marks "->" (by decide), Bool.false_eq_true, if_false]
    rfl
  | some T =>
    have parts : Reads 0 (fun read => Parser.mark "->" >>= fun _ => read (.type false))
        (EndsPlain false) Whatever (op "->" ++ T) :=
      (Reads.marks '-' '>' rfl (k := 0)).bind (h T rfl).named (fun _ _ => trivial)
        (fun _ _ => trivial) (by omega) (by simp [op, markList, sizeList, size])
    refine ((parts.node (r := .returnType) (by decide) (by decide)).congr ?_).mono (Nat.le_refl _)
      (fun _ => id) fun _ _ => trivial
    intro read c d ts us spells _ rest run
    have arrow : Ahead.mark "->" c.rest = true := by
      have spells : Respells ts (.mark '-' true Extent.nowhere :: .mark '>' false Extent.nowhere ::
        T) := spells
      rw [rest]
      cases spells with
      | mark joined spells =>
        cases spells
        cases joined rfl
        rfl
    refine run_bind_eq_ok.mpr ⟨_, _, peek_run _, ?_⟩
    rw [arrow]
    exact run

theorem KeepsElements.callArguments {result : Option (List Token)} (h : KeepsElements S)
    (h' : ∀ T, result = some T → KeepsType false T) :
    Reads 0 (fun read => callArguments read) (EndsPlain false)
      (fun qs => ∃ parts, Whatever parts ∧ qs = [.node .callArguments parts])
      (inParens S ++ arrowTokens result) := by
  have parens := h.separated.group (m := 0) .parenthesis "parentheses" (by omega)
  have whole := parens.bind (χ := Whatever) (m := 0) (reads_returnType h') (fun _ _ => trivial)
    (fun _ _ => trivial) (by omega) (by omega)
  exact whole.node (by decide) (by decide)

theorem KeepsElements.keepsTrait (h : KeepsElements S) (result : Option (List Token))
    (h' : ∀ T, result = some T → KeepsType false T) (free : w ∉ reservedWords) :
    KeepsTrait (ident w ++ (inParens S ++ arrowTokens result)) := by
  refine ⟨.word (.inl free) fun spells _ => ?_, ⟨fun {n ts us c} enough spells ends rest => ?_⟩⟩
  · have spells : Respells _ (.group .parenthesis S Extent.nowhere Extent.nowhere :: _) := spells
    cases spells
    rfl
  have spells : Respells ts (.name w Extent.nowhere :: (inParens S ++ arrowTokens result)) := spells
  cases spells with
  | @name _ x _ ts _ spells =>
    have group : ∃ body o cl ts', ts = .group .parenthesis body o cl :: ts' := by
      have spells : Respells ts (.group .parenthesis S Extent.nowhere Extent.nowhere :: _) := spells
      cases spells with
      | group => exact ⟨_, _, _, _, rfl⟩
    obtain ⟨body, o, cl, ts, rfl⟩ := group
    obtain ⟨_, ⟨parts, -, rfl⟩, kept, run⟩ := (h.callArguments h').run (n := n)
      (c := ⟨.group .parenthesis body o cl :: (ts ++ us), c.inside, c.leftover, []⟩)
      (by simp only [sizeList_append] at enough ⊢; omega) spells ends rfl
    have first : path (reader n) false c = .ok ((), { c with
        rest := .group .parenthesis body o cl :: (ts ++ us)
        row := wordPath [.name w x] :: c.row }) :=
      path_run (reader n) (.nil) (.inl free) (fun _ mem => absurd mem (List.not_mem_nil)) ⟨rfl, rfl⟩ rest
    have token : AreKept [.token (.name w x)] (ident w) := .token (.name .nil) (.name .nil)
    refine ⟨[.node .path [.node .segment [.token (.name w x), .node .callArguments parts]]],
      ⟨_, rfl⟩, ((token.append kept).node (k := .segment) (by decide) (by decide)).node (by decide)
        (by decide), run_bind_eq_ok.mpr ⟨_, _, first, run_bind_eq_ok.mpr ⟨_, _, rfl, ?_⟩⟩⟩
    refine run_bind_eq_ok.mpr ⟨true, _, rfl, ?_⟩
    refine run_bind_eq_ok.mpr ⟨false, _, rfl, ?_⟩
    exact run_bind_eq_ok.mpr ⟨((), [.node .callArguments parts]), _,
      collect_eq_ok.mpr ⟨_, run, rfl, rfl⟩, rfl⟩

theorem StartsPlainPath.boundAhead (h : StartsPlainPath S) (spells : Respells ts S) (us : List Token) :
    Grammar.boundAhead conditional (ts ++ us) = true := by
  cases h with
  | word => cases spells; rfl
  | root =>
    cases spells with
    | mark joined spells =>
      cases spells
      cases joined rfl
      rfl

theorem StartsPlainPath.boundTests (h : StartsPlainPath S) (spells : Respells ts S) :
    ∀ test ∈ Grammar.boundTests, test (ts ++ us) = false := by
  simp only [Grammar.boundTests, List.forall_mem_cons, List.not_mem_nil, false_imp_iff,
    implies_true, and_true]
  exact ⟨h.startsType.ahead_lifetime spells us, h.ahead_word (by decide) (by decide) spells us,
    h.ahead_group _ spells us, h.ahead_word (by decide) (by decide) spells us,
    h.ahead_group _ spells us, h.ahead_word (by decide) (by decide) spells us⟩

theorem KeepsTrait.keepsBound (h : KeepsTrait S) : KeepsBound true S := by
  refine ⟨fun _ _ spells us => h.starts.boundAhead spells us,
    fun spells us => h.starts.ahead_mark (x := '*') (s := []) rfl (by decide) spells us,
    h.starts.startsType.length_pos, fun captures conditional =>
      ⟨fun {n ts us c} enough spells ends rest => ?_⟩⟩
  obtain ⟨_, ⟨q, rfl⟩, kept, run⟩ := h.reads.run (c := { c with row := [] }) enough spells ends rest
  have tests : ∀ test ∈ boundTests, test c.rest = false := by
    rw [rest]
    exact h.starts.boundTests spells
  have none : mark? "?" { c with row := [] } = .ok (false, { c with row := [] }) :=
    (mark?_eq_ok '?' rfl).mpr (.inr ⟨rfl, by
      rw [rest]
      exact h.starts.ahead_mark (x := '?') (s := []) rfl (by decide) spells us, rfl⟩)
  exact ⟨[.node .traitBound [q]], ⟨_, rfl, rfl⟩, kept.node (by decide) (by decide),
    bound_run tests none (tests _ (by simp [boundTests])) run⟩

theorem KeepsTrait.keepsBound_optional (h : KeepsTrait S) : KeepsBound true (op "?" ++ S) := by
  refine ⟨fun conditional ts spells us => ?_, fun {ts} spells us => ?_, by simp [op, markList],
    fun captures conditional => ⟨fun {n ts us c} enough spells ends rest => ?_⟩⟩ <;>
    have spells : Respells ts (.mark '?' false Extent.nowhere :: S) := spells
  · cases spells
    cases conditional <;> rfl
  · cases spells
    rfl
  cases spells with
  | @mark _ j _ e _ ts _ _ spells =>
    obtain ⟨_, ⟨q, rfl⟩, kept, run⟩ := h.reads.run (n := n)
      (c := ⟨ts ++ us, c.inside, c.leftover, [.token (.mark '?' false e)]⟩)
      (by simp only [sizeList_append] at enough ⊢; omega) spells ends rfl
    have some : mark? "?" { c with row := [] } = .ok (true,
        ⟨ts ++ us, c.inside, c.leftover, [.token (.mark '?' false e)]⟩) :=
      (mark?_eq_ok '?' rfl).mpr (.inl ⟨rfl, j, e, _, rest, rfl⟩)
    have tests : ∀ test ∈ boundTests, test c.rest = false := by
      rw [rest]
      simp only [boundTests, List.forall_mem_cons, List.not_mem_nil, false_imp_iff, implies_true,
        and_true]
      exact ⟨rfl, rfl, rfl, rfl, rfl, rfl⟩
    have mark : AreKept [.token (.mark '?' false e)] (op "?") :=
      .token (.mark id .nil) (.mark id .nil)
    exact ⟨[.node .traitBound [.token (.mark '?' false e), q]], ⟨_, rfl, rfl⟩,
      (mark.append kept).node (by decide) (by decide),
      bound_run tests some (h.starts.boundTests spells _ (by simp [boundTests])) run⟩

/-! ## Lists of bounds -/

/-- Reads a bound and the plus sign behind it, and says whether another bound follows. -/
def boundStep (plus captures conditional : Bool) (read : Reader) : Parser Bool := do
  read (.bound captures conditional)
  if !(plus && (← peek (Ahead.mark "+"))) then return false
  mark "+"
  peek (boundAhead conditional)

/-- Whether tokens are read as bounds with plus signs between them that are kept, one of them no
lifetime if `t`. -/
structure KeepsBounds (plus t : Bool) (S : List Token) : Prop where
  starts : ∀ conditional {ts}, Respells ts S → ∀ us, boundAhead conditional (ts ++ us) = true
  plain : ∀ {ts}, Respells ts S → ∀ us, Ahead.mark "*" (ts ++ us) = false
  reads : ∀ captures conditional, ∀ m > S.length,
    Reads 1 (fun read => repeatUpTo (boundStep plus captures conditional read) m) (EndsPlain plus)
      (fun qs => qs.any isTraitBound = t) S

theorem KeepsBound.named (h : KeepsBound t S) (captures conditional : Bool) :
    Reads 1 (fun read => read (.bound captures conditional)) (EndsPlain false)
      (fun qs => ∃ q, qs = [q] ∧ isTraitBound q = t) S :=
  Yields.named (h.reads captures conditional)

theorem KeepsBound.keepsBounds (h : KeepsBound t S) : KeepsBounds plus t S := by
  refine ⟨h.starts, h.plain, fun captures conditional m some => ?_⟩
  have last : Yields false 1 (boundStep plus captures conditional) (EndsPlain plus)
      (fun qs => qs.any isTraitBound = t) S := by
    refine ⟨fun {n ts us c} enough spells ends rest => ?_⟩
    obtain ⟨_, ⟨q, rfl, role⟩, kept, run⟩ :=
      (h.named captures conditional).run enough spells ends.weaken rest
    refine ⟨[q], by simpa using role, kept, run_bind_eq_ok.mpr ⟨_, _, run, ?_⟩⟩
    refine run_bind_eq_ok.mpr ⟨_, _, peek_run _, ?_⟩
    cases plus with
    | false => rfl
    | true =>
      simp only [ends.bounds rfl, Bool.and_false]
      rfl
  exact last.loop some

theorem KeepsBound.keepsBounds_append (h : KeepsBound t S) (others : KeepsBounds true t' T) :
    KeepsBounds true (t || t') (S ++ op "+" ++ T) := by
  refine ⟨fun conditional ts spells us => ?_, fun {ts} spells us => ?_,
    fun captures conditional m some => ?_⟩
  · rw [List.append_assoc] at spells
    obtain ⟨ts, vs, rfl, first, -⟩ := spells.exists_of_append
    rw [List.append_assoc]
    exact h.starts conditional first _
  · rw [List.append_assoc] at spells
    obtain ⟨ts, vs, rfl, first, -⟩ := spells.exists_of_append
    rw [List.append_assoc]
    exact h.plain first _
  have more : Yields true 1 (boundStep true captures conditional)
      (boundAhead conditional · = true) (fun qs => qs.any isTraitBound = t) (S ++ op "+") := by
    refine ⟨fun {n ts us c} enough spells ends rest => ?_⟩
    obtain ⟨ts, vs, rfl, first, plus⟩ := spells.exists_of_append
    have plus : Respells vs [.mark '+' false Extent.nowhere] := plus
    rw [List.append_assoc] at rest
    simp only [sizeList_append] at enough
    cases plus with
    | @mark _ j _ e _ _ _ _ last =>
      cases last
      obtain ⟨_, ⟨q, rfl, role⟩, kept, run⟩ :=
        (h.named captures conditional).run (n := n) (by omega) first endsPlain_plus rest
      have mark : AreKept [.token (.mark '+' false e)] (op "+") :=
        .token (.mark id .nil) (.mark id .nil)
      have other : isTraitBound (.token (.mark '+' false e)) = false := rfl
      refine ⟨[q, .token (.mark '+' false e)], by simpa [other] using role, kept.append mark,
        run_bind_eq_ok.mpr ⟨_, _, run, run_bind_eq_ok.mpr ⟨true, _, rfl, ?_⟩⟩⟩
      refine run_bind_eq_ok.mpr ⟨(), _, (mark_eq_ok '+' rfl).mpr ⟨j, e, us, rfl, rfl⟩, ?_⟩
      exact congrArg (fun b => Except.ok (b, _)) ends
  exact more.loop_append (by simp [op, markList]) (others.reads captures conditional)
    (fun spells _ => others.starts conditional spells _)
    (fun {qs rs} first second => by rw [List.any_append, first, second]) some

theorem KeepsBounds.bounds (h : KeepsBounds plus t S) (captures conditional : Bool) :
    Reads 1 (fun read => bounds read plus captures conditional) (EndsPlain plus)
      (fun qs => qs.any isTraitBound = t) S :=
  Yields.repeatWhile (h.reads captures conditional)

theorem KeepsBounds.boundsWithTrait (h : KeepsBounds plus true T) (intro : Parser Unit)
    (first : Reads 0 (fun _ => intro) (Ahead.mark "*" · = false) Whatever S) (some : 0 < sizeList S)
    (captures conditional : Bool) (rule : String) :
    Reads 0 (fun read => Grammar.boundsWithTrait read intro plus captures conditional rule)
      (EndsPlain plus) Whatever (S ++ T) := by
  refine ⟨fun {n ts us c} enough spells ends rest => ?_⟩
  obtain ⟨ts, vs, rfl, spells, spells'⟩ := spells.exists_of_append
  rw [List.append_assoc] at rest
  simp only [sizeList_append] at enough
  obtain ⟨qs, -, kept, run⟩ := first.run (n := n) (by omega) spells
    (h.plain spells' us) rest
  obtain ⟨rs, trait, kept', run'⟩ := (h.bounds captures conditional).run (n := n)
    (c := ⟨vs ++ us, c.inside, c.leftover, []⟩) (by omega) spells' ends rfl
  refine ⟨qs ++ rs, trivial, kept.append kept', run_bind_eq_ok.mpr ⟨_, _, rfl,
    run_bind_eq_ok.mpr ⟨_, _, run, run_bind_eq_ok.mpr ⟨((), rs), { c with
      rest := us, row := qs.reverse ++ c.row },
        collect_eq_ok.mpr ⟨_, run', by simp, rfl⟩, ?_⟩⟩⟩⟩
  have any : rs.any (fun p => p.is .traitBound || p.is .verbatimBound) = true := trait
  simp only [any, if_true]
  rw [List.reverse_append, List.append_assoc]
  exact run_bind_eq_ok.mpr ⟨PUnit.unit, _, forIn_emit_eq_ok.mpr rfl, rfl⟩

/-! ## Types of bounds -/

theorem type_dyn (none : Ahead.mark "*" ts = false) (rest : c.rest = .name "dyn" e :: ts) :
    type read plus c =
      node .dynamicType (objectBounds read (do word "dyn"; discard (mark? "*")) plus) c := by
  rcases c with ⟨_, inside, leftover, row⟩
  cases rest
  let body := objectBounds read (do word "dyn"; discard (mark? "*")) plus
  have either : type read plus ⟨.name "dyn" e :: ts, inside, leftover, row⟩ =
      (if Ahead.mark "*" ts then verbatim .verbatimType body else node .dynamicType body)
        ⟨.name "dyn" e :: ts, inside, leftover, row⟩ := rfl
  rw [either, none]
  rfl

theorem type_impl (rest : c.rest = .name "impl" e :: ts) : type read plus c =
    node .boundsType (boundsWithTrait read (word "impl") plus true true
      "at least one trait must be specified") c := by
  rcases c with ⟨_, inside, leftover, row⟩
  cases rest
  rfl

theorem KeepsBounds.impl (h : KeepsBounds plus true S) : KeepsType plus (ident "impl" ++ S) := by
  refine ⟨.word (.inr (by decide)), ?_⟩
  have parts := h.boundsWithTrait (word "impl") (S := ident "impl")
    (Reads.word.mono (Nat.le_refl 0) (fun _ _ => trivial) fun _ _ => trivial) (by decide) true true
    "at least one trait must be specified"
  refine ((parts.node (r := .boundsType) (by decide) (by decide)).congr ?_).mono (Nat.le_refl _)
    (fun _ => id) fun _ ⟨_, _, one⟩ => ⟨_, one⟩
  intro read c d ts us spells _ rest run
  have spells : Respells ts (.name "impl" Extent.nowhere :: S) := spells
  cases spells
  rw [type_impl rest]
  exact run

theorem KeepsBounds.dynamic (h : KeepsBounds plus true S) : KeepsType plus (ident "dyn" ++ S) := by
  refine ⟨.word (.inr (by decide)), ?_⟩
  have intro : Reads 0 (fun _ => word "dyn" >>= fun _ => discard (mark? "*"))
      (Ahead.mark "*" · = false) Whatever (ident "dyn") := by
    have both := Reads.word (k := 0) (w := "dyn") |>.bind (χ := Whatever) (m := 0)
      (Reads.noMark "*" (k := 0)) (fun _ _ => trivial) (fun _ _ => trivial) (by omega) (by omega)
    rwa [List.append_nil] at both
  have parts := h.boundsWithTrait _ intro (by decide) false false
    "at least one trait is required for an object type"
  refine ((parts.node (r := .dynamicType) (by decide) (by decide)).congr ?_).mono (Nat.le_refl _)
    (fun _ => id) fun _ ⟨_, _, one⟩ => ⟨_, one⟩
  intro read c d ts us spells _ rest run
  have spells : Respells ts (.name "dyn" Extent.nowhere :: S) := spells
  cases spells with
  | name spells =>
    rw [type_dyn (h.plain spells us) rest]
    exact run

/-! ## Arguments of a path -/

theorem EndsArgument.endsPlain (ends : EndsArgument us) : EndsPlain true us := by
  rcases ends with ends | ends
  · obtain ⟨j, e, us, rfl⟩ := (ahead_mark_eq_true '>' rfl).mp ends
    exact endsPlain_mark (by decide)
  · obtain ⟨j, e, us, rfl⟩ := (ahead_mark_eq_true ',' rfl).mp ends
    exact endsPlain_mark (by decide)

theorem EndsArgument.marks (ends : EndsArgument us) {m : String} (mem : m ∈ ["=", ":", "+"]) :
    Ahead.mark m us = false := by
  simp only [List.mem_cons, List.not_mem_nil, or_false] at mem
  rcases ends with ends | ends
  · obtain ⟨j, e, us, rfl⟩ := (ahead_mark_eq_true '>' rfl).mp ends
    rcases mem with rfl | rfl | rfl <;> rfl
  · obtain ⟨j, e, us, rfl⟩ := (ahead_mark_eq_true ',' rfl).mp ends
    rcases mem with rfl | rfl | rfl <;> rfl

theorem readsArgument_lifetime (text : String) : ReadsArgument true [.lifetime text Extent.nowhere] := by
  have reads : Reads 1 (fun _ => node .lifetimeArgument Parser.lifetime) EndsArgument
      (fun qs => ∃ q, qs = [q] ∧ q.isMark ',' = false ∧ q.is .lifetimeArgument = true)
      [.lifetime text Extent.nowhere] := by
    refine ((Reads.lifetime text (k := 1)).node (by decide) (by decide)).mono (Nat.le_refl _)
      (fun _ _ => trivial) ?_
    rintro _ ⟨parts, -, rfl⟩
    exact ⟨_, rfl, rfl, rfl⟩
  refine ⟨fun m mem ts spells us => ?_, by simp, reads.congr ?_⟩
  · simp only [closingMarks, List.mem_cons, List.not_mem_nil, or_false] at mem
    cases spells
    rcases mem with rfl | rfl | rfl <;> rfl
  · intro read c d ts us spells ends rest run
    cases spells with
    | @lifetime _ e _ _ _ spells =>
      cases spells
      have rest : c.rest = .lifetime text e :: us := rest
      refine run_bind_eq_ok.mpr ⟨_, _, peek_run _, run_bind_eq_ok.mpr ⟨_, _, rfl, ?_⟩⟩
      simp only [rest, List.drop_succ_cons, List.drop_zero, ends.marks (m := "+") (by decide)]
      exact run

theorem readsArgument_literal (text : String) : ReadsArgument false [.literal text Extent.nowhere] := by
  have value : Reads 1 (fun read => constValue read) Whatever Whatever
      [.literal text Extent.nowhere] := by
    refine (((Reads.literal text (k := 1)).node (r := .literalExpr) (by decide)
      (by decide)).congr ?_).mono (Nat.le_refl _) (fun _ _ => trivial) fun _ _ => trivial
    intro read c d ts us spells _ rest run
    rcases c with ⟨_, inside, leftover, row⟩
    cases spells
    cases rest
    exact run
  have reads : Reads 1 (fun read => node .constArgument (constValue read)) EndsArgument
      (fun qs => ∃ q, qs = [q] ∧ q.isMark ',' = false ∧ q.is .lifetimeArgument = false)
      [.literal text Extent.nowhere] := by
    refine (value.node (by decide) (by decide)).mono (Nat.le_refl _) (fun _ _ => trivial) ?_
    rintro _ ⟨parts, -, rfl⟩
    exact ⟨_, rfl, rfl, rfl⟩
  refine ⟨fun m mem ts spells us => ?_, by simp, reads.congr ?_⟩
  · simp only [closingMarks, List.mem_cons, List.not_mem_nil, or_false] at mem
    cases spells
    rcases mem with rfl | rfl | rfl <;> rfl
  · intro read c d ts us spells _ rest run
    rcases c with ⟨_, inside, leftover, row⟩
    cases spells
    cases rest
    exact run

/-- What is read as neither a lifetime nor a value. -/
theorem StartsType.argumentTests (h : StartsType S) (spells : Respells ts S) (us : List Token) :
    Ahead.lifetime (ts ++ us) = false ∧ Ahead.literal (ts ++ us) = false ∧
      Ahead.group .brace (ts ++ us) = false :=
  ⟨h.ahead_lifetime spells us, h.ahead_literal spells us, h.ahead_brace spells us⟩

theorem KeepsType.readsArgument (h : KeepsType true S) : ReadsArgument false S := by
  refine ⟨fun m mem ts spells us => h.starts.ahead_mark ?_ spells us, h.starts.length_pos,
    ⟨fun {n ts us c} enough spells ends rest => ?_⟩⟩
  · simp only [closingMarks, List.mem_cons, List.not_mem_nil, or_false] at mem ⊢
    tauto
  obtain ⟨_, ⟨q, rfl⟩, kept, run⟩ := h.named.run enough spells ends.endsPlain rest
  obtain ⟨noLifetime, noLiteral, noBrace⟩ := h.starts.argumentTests spells us
  refine ⟨[.node .typeArgument [q]], ⟨_, rfl, rfl, rfl⟩, kept.node (by decide) (by decide), ?_⟩
  rw [← rest] at noLifetime noLiteral noBrace
  refine run_bind_eq_ok.mpr ⟨_, _, peek_run _, run_bind_eq_ok.mpr ⟨_, _, rfl, ?_⟩⟩
  simp only [noLifetime, Bool.false_and, Bool.false_eq_true, if_false]
  refine run_bind_eq_ok.mpr ⟨_, _, peek_run _, run_bind_eq_ok.mpr ⟨_, _, peek_run _, ?_⟩⟩
  simp only [noLiteral, noBrace, Bool.or_self, Bool.false_eq_true, if_false]
  refine run_bind_eq_ok.mpr ⟨_, _, run, run_bind_eq_ok.mpr ⟨_, _, rfl, ?_⟩⟩
  refine run_bind_eq_ok.mpr ⟨_, _, peek_run _, ?_⟩
  simp only [ends.marks (m := "=") (by decide), Bool.and_false, Bool.false_eq_true, if_false]
  refine run_bind_eq_ok.mpr ⟨_, _, peek_run _, ?_⟩
  simp only [ends.marks (m := ":") (by decide), Bool.and_false, Bool.false_eq_true, if_false]
  rfl

/-- A word that is read as a type, in front of an equality sign too. -/
theorem type_name_run (free : w ∉ reservedWords) (ends : EndsPlain true us)
    (rest : c.rest = .name w e :: us) : type read true c = .ok ((), { c with
      rest := us
      row := pathType [.name w e] :: c.row }) := by
  have starts : StartsPlainPath (ident w) := .word (.inl free) fun spells none => by
    cases spells
    exact none
  have spells : Respells [.name w e] (ident w) := .name .nil
  have path : anyPath read false { c with row := [] } =
      .ok ((), { c with rest := us, row := [wordPath [.name w e]] }) := by
    have less : Ahead.mark "<" c.rest = false := by rw [rest]; rfl
    refine run_bind_eq_ok.mpr ⟨_, _, peek_run _, ?_⟩
    simp only [less, Bool.false_eq_true, if_false]
    exact path_run read (c := { c with row := [] }) .nil (.inl free)
      (fun _ mem => absurd mem List.not_mem_nil) ends.path rest
  rw [starts.type_eq spells (ends.marks "#" (by decide)) rest]
  exact pathTypeOrBounds_run path (.inr (ends.marks "!" (by decide))) ends.bounds

theorem KeepsType.readsArgument_binding (h : KeepsType true S) (free : w ∉ reservedWords) :
    ReadsArgument false (ident w ++ (op "=" ++ S)) := by
  have word : StartsType (ident w ++ (op "=" ++ S)) := .word (.inl free)
  refine ⟨fun m mem ts spells us => word.ahead_mark ?_ spells us, by simp [ident],
    ⟨fun {n ts us c} enough spells ends rest => ?_⟩⟩
  · simp only [closingMarks, List.mem_cons, List.not_mem_nil, or_false] at mem ⊢
    tauto
  obtain ⟨noLifetime, noLiteral, noBrace⟩ := word.argumentTests spells us
  rw [← rest] at noLifetime noLiteral noBrace
  have spells : Respells ts (.name w Extent.nowhere :: .mark '=' false Extent.nowhere :: S) := spells
  cases spells with
  | @name _ x _ _ _ spells =>
    cases spells with
    | @mark _ j _ e _ ts _ _ spells =>
      obtain ⟨_, ⟨q, rfl⟩, kept, run⟩ := h.named.run (n := n)
        (c := ⟨ts ++ us, c.inside, c.leftover, [.token (.mark '=' false e), .token (.name w x)]⟩)
        (by simp only [sizeList_append] at enough ⊢; omega) spells ends.endsPlain rfl
      obtain ⟨-, noLiteral', noBrace'⟩ := h.starts.argumentTests spells us
      have parts : AreKept ([.token (.name w x)] ++ ([.token (.mark '=' false e)] ++ [q]))
          (ident w ++ (op "=" ++ S)) :=
        .append (.token (.name .nil) (.name .nil))
          (.append (.token (.mark id .nil) (.mark id .nil)) kept)
      have name : reader n (.type true) c = .ok ((), { c with
          rest := .mark '=' j e :: (ts ++ us)
          row := pathType [.name w x] :: c.row }) := by
        obtain ⟨n, rfl⟩ : ∃ m, n = m + 1 := ⟨n - 1, by simp only [op, ident, sizeList_append, sizeList, size] at enough; omega⟩
        exact type_name_run free (endsPlain_mark (by decide)) rest
      refine ⟨[.node .binding ([.token (.name w x)] ++ ([.token (.mark '=' false e)] ++ [q]))],
        ⟨_, rfl, rfl, rfl⟩, parts.node (by decide) (by decide), ?_⟩
      refine run_bind_eq_ok.mpr ⟨_, _, peek_run _, run_bind_eq_ok.mpr ⟨_, _, rfl, ?_⟩⟩
      simp only [noLifetime, Bool.false_and, Bool.false_eq_true, if_false]
      refine run_bind_eq_ok.mpr ⟨_, _, peek_run _, run_bind_eq_ok.mpr ⟨_, _, peek_run _, ?_⟩⟩
      simp only [noLiteral, noBrace, Bool.or_self, Bool.false_eq_true, if_false]
      refine run_bind_eq_ok.mpr ⟨_, _, name, run_bind_eq_ok.mpr ⟨_, _, rfl, ?_⟩⟩
      refine run_bind_eq_ok.mpr ⟨true, _, rfl, ?_⟩
      have value : (do
          mark "="
          if (← peek Ahead.literal) || (← peek (Ahead.group .brace)) then constValue (reader n)
          else reader n (.type true) : Parser Unit)
          ⟨.mark '=' j e :: (ts ++ us), c.inside, c.leftover, [.token (.name w x)]⟩ =
            .ok ((), ⟨us, c.inside, c.leftover,
              [q, .token (.mark '=' false e), .token (.name w x)]⟩) := by
        refine run_bind_eq_ok.mpr ⟨(), _, (mark_eq_ok '=' rfl).mpr ⟨j, e, _, rfl, rfl⟩, ?_⟩
        refine run_bind_eq_ok.mpr ⟨_, _, peek_run _, run_bind_eq_ok.mpr ⟨_, _, peek_run _, ?_⟩⟩
        simp only [noLiteral', noBrace', Bool.or_self, Bool.false_eq_true, if_false]
        exact run
      refine run_bind_eq_ok.mpr ⟨_, _, rfl, run_bind_eq_ok.mpr ⟨_, _, rfl, ?_⟩⟩
      exact node_eq_ok.mpr ⟨_, run_bind_eq_ok.mpr ⟨_, _, rfl, value⟩, rfl⟩

end FormulaBinding.Grammar
