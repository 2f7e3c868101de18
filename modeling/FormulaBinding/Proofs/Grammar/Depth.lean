import FormulaBinding.Proofs.Grammar.Locality

/-!
# How deep rules are applied

Rules that are applied up to some depth do the same as rules that are applied further, if there are
not too many tokens: a rule applies others to fewer tokens than it has, but for a few that it may
apply before it has taken a token.
-/

namespace FormulaBinding.Grammar

open FormulaBinding.Parser

-- A rule has more steps than the search for instances looks at by default.
set_option synthInstance.maxSize 1000000000

/-- Whether two readers agree on `n` tokens where a rule may begin with another one. -/
class AgreeFirst (n : ℕ) (read read' : Reader) : Prop where
  bound : ∀ captures conditional, Agrees [] [] id true n (read (.bound captures conditional))
    (read' (.bound captures conditional))
  unary : ∀ braces, Agrees [] [] id true n (read (.unary braces)) (read' (.unary braces))
  early : Agrees [] [] id true n (read .early) (read' .early)
  pattern : Agrees [] [] id true n (read .pattern) (read' .pattern)
  item : Agrees [] [] id true n (read .item) (read' .item)

variable {start : Bool} {n : ℕ} {read read' : Reader}
variable [∀ nonterminal, Advances Remains (read nonterminal)] [AgreeInside n read read']
variable [∀ captures conditional, Consumes (read (.bound captures conditional))]

omit [AgreeInside n read read'] [∀ captures conditional, Consumes (read (.bound captures conditional))] in
instance (captures conditional : Bool) : Consumes (bound read captures conditional) := by
  dsimp only [bound, capture, traitBoundParts]; infer_instance

instance : Agrees [] [] id start n (generics read) (generics read') := by
  cases start <;> (dsimp only [generics]; infer_instance)

instance : Agrees [] [] id false n (predicate read) (predicate read') := by
  dsimp only [predicate]; infer_instance

instance : Agrees [] [] id start n (whereClause read) (whereClause read') := by
  cases start <;> (dsimp only [whereClause]; infer_instance)

instance : Agrees [] [] id start n (furtherAlternatives read) (furtherAlternatives read') := by
  cases start <;> (dsimp only [furtherAlternatives]; infer_instance)

instance : Agrees [] [] id false n (alternatives read) (alternatives read') := by
  dsimp only [alternatives]; infer_instance

instance : Agrees [] [] id start n (rangeBound read) (rangeBound read') := by
  dsimp only [rangeBound]; infer_instance

instance : Agrees [] [] id start n (rangeEnd read) (rangeEnd read') := by
  dsimp only [rangeEnd]; infer_instance

instance : Agrees [] [] id start n (rangeFrom read) (rangeFrom read') := by
  dsimp only [rangeFrom]; infer_instance

instance : Agrees [] [] id false n (pathPattern.fieldPattern read)
    (pathPattern.fieldPattern read') := by
  dsimp only [pathPattern.fieldPattern]; infer_instance

instance : Agrees [] [] id start n (pathPattern read) (pathPattern read') := by
  dsimp only [pathPattern]; infer_instance

instance : Agrees [] [] id start n (slicePattern read) (slicePattern read') := by
  dsimp only [slicePattern, brackets]
  refine .node (.inGroup _ _ (.loop ?_ (.bind (fun _ => ?_) inferInstance fun _ => .ite
    inferInstance (.bind (fun _ => ?_) inferInstance fun _ => inferInstance))))
  all_goals repeat' first
    | refine .bind inferInstance fun _ => ?_
    | refine .ite ?_ ?_
    | infer_instance
    | split

instance : Agrees [] [] id start n (pattern read) (pattern read') := by
  cases start <;> (dsimp only [pattern]; infer_instance)

instance (braces : Bool) (p : Precedence) :
    Agrees [] [] id false n (rightOperand read braces p) (rightOperand read' braces p) := by
  dsimp only [rightOperand]; infer_instance

instance (braces : Bool) :
    Agrees [] [] id start n (rangeRest read braces) (rangeRest read' braces) := by
  dsimp only [rangeRest]
  refine .peek fun _ => .ite (.of_error nofun)
    (.bind_told (fun _ => inferInstance) inferInstance ?_ ?_)
  · simp only [Bool.not_true, Bool.false_eq_true, if_false, Bool.true_or, if_true]
    infer_instance
  · simp only [Bool.not_false, if_true, Bool.false_or]
    cases start <;> infer_instance

theorem consumes_binaryOperator {ts : List Token} {o : BinaryOperator}
    (found : binaryOperator? ts = some o) : Consumes (mark o.text) := by
  have every : ∀ o ∈ binaryOperators, o.text.toList ≠ [] := by decide
  exact consumes_mark (every o (List.mem_of_find?_eq_some found))

instance (braces : Bool) (base : Precedence) :
    Agrees [] [] id start n (operatorStep read braces base) (operatorStep read' braces base) := by
  dsimp only [operatorStep]
  refine .bind (fun _ => ?_) inferInstance fun _ => .ite inferInstance (.ahead fun us => ?_)
  · repeat' first
      | refine .bind inferInstance fun _ => ?_
      | refine .ite ?_ ?_
      | infer_instance
      | split
  · rw [List.append_nil]
    cases found : binaryOperator? us with
    | some o =>
      have := consumes_binaryOperator found
      dsimp only
      cases start <;> infer_instance
    | none =>
      dsimp only
      cases start <;> infer_instance

instance (braces : Bool) (base : Precedence) :
    Agrees [] [] id start n (operators read braces base) (operators read' braces base) := by
  dsimp only [operators]; infer_instance

instance : Agrees [] [] id start n (arguments read) (arguments read') := by
  dsimp only [arguments]; infer_instance

instance (dot : Parser Unit) [Advances Remains dot] :
    Agrees [] [] id start n (selectMember read dot) (selectMember read' dot) := by
  cases start <;> (dsimp only [selectMember]; infer_instance)

instance : Agrees [] [] id start n (selection.selectAfterDot read)
    (selection.selectAfterDot read') := by
  dsimp only [selection.selectAfterDot]; infer_instance

instance : Agrees [] [] id start n (selection read) (selection read') := by
  dsimp only [selection]
  refine .bind (fun _ => ?_) inferInstance fun ts => ?_
  · split <;> infer_instance
  · split <;> infer_instance

instance : Agrees [] [] id start n (trailers read) (trailers read') := by
  dsimp only [trailers]; infer_instance

instance : Agrees [] [] id false n (subject read) (subject read') := by
  dsimp only [subject]; infer_instance

instance : Agrees [] [] id start n (ifExpr read) (ifExpr read') := by
  cases start <;> (dsimp only [ifExpr]; infer_instance)

instance : Agrees [] [] id false n (matchArm read) (matchArm read') := by
  dsimp only [matchArm]; infer_instance

instance : Agrees [] [] id start n (matchExpr read) (matchExpr read') := by
  cases start <;> (dsimp only [matchExpr]; infer_instance)

instance : Agrees [] [] id start n (loopOrBlock? read) (loopOrBlock? read') := by
  cases start <;> (dsimp only [loopOrBlock?]; infer_instance)

instance : Agrees [] [] id start n (labeled read) (labeled read') := by
  dsimp only [labeled]; infer_instance

instance (k : Kind) (words : List String) :
    Agrees [] [] id start n (keywordBlock read k words) (keywordBlock read' k words) := by
  dsimp only [keywordBlock]; infer_instance

instance (braces : Bool) : Agrees [] [] id start n (closure read braces) (closure read' braces) := by
  cases start <;> (dsimp only [closure]; infer_instance)

instance (k : Kind) (w : String) :
    Agrees [] [] id start n (jumpExpr read k w) (jumpExpr read' k w) := by
  cases start <;> (dsimp only [jumpExpr]; infer_instance)

instance (braces : Bool) :
    Agrees [] [] id start n (breakExpr read braces) (breakExpr read' braces) := by
  cases start <;> (dsimp only [breakExpr]; infer_instance)

instance : Agrees [] [] id false n (fieldValue read) (fieldValue read') := by
  dsimp only [fieldValue]; infer_instance

instance : Agrees [] [] id start n (recordFields read) (recordFields read') := by
  dsimp only [recordFields]; infer_instance

instance (k : Kind) (p q : Parser Unit) [Advances Remains p] [Agrees [] [] id start n p q] :
    Agrees [] [] id start n (pathMacroOrRecord.extendParts k p)
      (pathMacroOrRecord.extendParts k q) := by
  dsimp only [pathMacroOrRecord.extendParts]
  refine .get fun us c => ?_
  dsimp only
  split <;> infer_instance

instance (braces : Bool) :
    Agrees [] [] id start n (pathMacroOrRecord read braces) (pathMacroOrRecord read' braces) := by
  dsimp only [pathMacroOrRecord]; infer_instance

instance : Agrees [] [] id start n (parenOrTuple read) (parenOrTuple read') := by
  dsimp only [parenOrTuple]; infer_instance

instance : Agrees [] [] id start n (arrayOrRepeat read) (arrayOrRepeat read') := by
  dsimp only [arrayOrRepeat]; infer_instance

instance (braces : Bool) : Agrees [] [] id start n (operand read braces) (operand read' braces) := by
  cases start <;> (dsimp only [operand]; infer_instance)

instance (braces : Bool) (attributes : List Phrase) :
    Agrees [] [] id start n (attributedOperand read braces attributes)
      (attributedOperand read' braces attributes) := by
  dsimp only [attributedOperand]
  refine .bind (fun _ => ?_) inferInstance fun _ => .bind (fun _ => ?_) inferInstance fun _ =>
    inferInstance
  all_goals repeat' first
    | refine .bind inferInstance fun _ => ?_
    | refine .ite ?_ ?_
    | infer_instance
    | split

/-- The three operators that are taken as a mark are all of one character. -/
theorem exists_mark_of_prefix {ts : List Token}
    (seen : (Ahead.mark "*" ts || Ahead.mark "!" ts || Ahead.mark "-" ts) = true) :
    ∃ x j e us, ts = .mark x j e :: us := by
  simp only [Bool.or_eq_true] at seen
  obtain (seen | seen) | seen := seen
  · exact ⟨_, (ahead_mark_eq_true '*' (by decide)).mp seen⟩
  · exact ⟨_, (ahead_mark_eq_true '!' (by decide)).mp seen⟩
  · exact ⟨_, (ahead_mark_eq_true '-' (by decide)).mp seen⟩

/-- The operand of a prefix operator has fewer tokens ahead. -/
theorem agrees_behindPrefix {first p q p' q' : Parser Unit}
    (kept : ∀ {c d u}, first c = .ok (u, d) → d.rest = c.rest)
    (operand : Agrees [] [] id false n p q) (other : Agrees [] [] id start n p' q') :
    Agrees [] [] id start n
      (do
        if (← peek (Ahead.mark "*")) || (← peek (Ahead.mark "!")) || (← peek (Ahead.mark "-")) then
          node .unaryExpr do
            first
            takeMarks 1
            p
        else p')
      (do
        if (← peek (Ahead.mark "*")) || (← peek (Ahead.mark "!")) || (← peek (Ahead.mark "-")) then
          node .unaryExpr do
            first
            takeMarks 1
            q
        else q') where
  run {us us' c d a} fits run := by
    simp only [List.append_nil] at run ⊢
    obtain ⟨_, _, peeked, run⟩ := run_bind_eq_ok.mp run
    cases peeked
    obtain ⟨_, _, peeked, run⟩ := run_bind_eq_ok.mp run
    cases peeked
    obtain ⟨_, _, peeked, run⟩ := run_bind_eq_ok.mp run
    cases peeked
    refine run_bind_eq_ok.mpr ⟨_, _, rfl, run_bind_eq_ok.mpr ⟨_, _, rfl,
      run_bind_eq_ok.mpr ⟨_, _, rfl, ?_⟩⟩⟩
    dsimp only at run ⊢
    split at run
    · rename_i seen
      rw [if_pos seen]
      obtain ⟨e, run, same⟩ := node_eq_ok.mp run
      obtain ⟨_, e₁, firstly, run⟩ := run_bind_eq_ok.mp run
      obtain ⟨_, e₂, taken, run⟩ := run_bind_eq_ok.mp run
      obtain ⟨x, j, place, ts, rest⟩ := exists_mark_of_prefix seen
      subst rest
      have before : e₁.rest = .mark x j place :: ts := kept firstly
      rw [takeMarks_one before] at taken
      cases taken
      have fewer : Fits false n ts :=
        fits.behind (List.suffix_cons _ _) (Nat.lt_succ_self _)
      exact node_eq_ok.mpr ⟨e, run_bind_eq_ok.mpr ⟨_, _, firstly, run_bind_eq_ok.mpr ⟨_, _,
        takeMarks_one before, operand.run_alone fewer run⟩⟩, same⟩
    · rename_i seen
      rw [if_neg seen]
      exact other.run_alone fits run

instance (braces : Bool) : Agrees [] [] id start n (unary read braces) (unary read' braces) := by
  dsimp only [unary]
  refine .bind (fun _ => inferInstance) inferInstance fun _ => .peek fun _ => .ite ?_ ?_
  · cases start <;> infer_instance
  · refine agrees_behindPrefix (fun emitted => ?_) inferInstance inferInstance
    obtain ⟨_, _, emitted, same⟩ := run_bind_eq_ok.mp emitted
    cases same
    rw [forIn_emit_eq_ok.mp emitted]

instance : Agrees [] [] id start n (early read) (early read') := by
  cases start <;> (dsimp only [early]; infer_instance)

instance (attributes : List Phrase) :
    Agrees [] [] id start n (letStatement read attributes) (letStatement read' attributes) := by
  cases start <;> (dsimp only [letStatement]; infer_instance)

instance (attributes : List Phrase) [Agrees [] [] id start n (read .early) (read' .early)] :
    Agrees [] [] id start n (expressionStatement read attributes)
      (expressionStatement read' attributes) := by
  dsimp only [expressionStatement]; infer_instance

/-- A declaration is read again from its attributes on. -/
instance [early : Agrees [] [] id start n (read .early) (read' .early)]
    [declared : Agrees [] [] id start n (read .item) (read' .item)] :
    Agrees [] [] id start n (statement read) (statement read') where
  run {us us' c d a} fits run := by
    simp only [List.append_nil] at run ⊢
    obtain ⟨_, _, got, run⟩ := run_bind_eq_ok.mp run
    cases got
    obtain ⟨x, c₁, collected, run⟩ := run_bind_eq_ok.mp run
    obtain ⟨use, c₂, looked, run⟩ := run_bind_eq_ok.mp run
    have kept : c₂.rest <:+ us :=
      (Advances.rest (R := Remains) looked).trans (Advances.rest (R := Remains) collected)
    have collected' : collect (outerAttributes read') { c with rest := us } = .ok (x, c₁) :=
      Agrees.run_alone inferInstance fits collected
    refine run_bind_eq_ok.mpr ⟨_, _, rfl, run_bind_eq_ok.mpr ⟨x, c₁, collected',
      run_bind_eq_ok.mpr ⟨use, c₂, looked, ?_⟩⟩⟩
    obtain ⟨_, _, seen, run⟩ := run_bind_eq_ok.mp run
    cases seen
    refine run_bind_eq_ok.mpr ⟨_, _, rfl, ?_⟩
    split at run
    · rename_i isMacro
      rw [if_pos isMacro]
      exact run
    · rename_i other
      rw [if_neg other]
      split at run
      · rename_i isLet
        rw [if_pos isLet]
        exact Agrees.run_alone inferInstance (fits.suffix kept) run
      · rename_i other
        rw [if_neg other]
        split at run
        · rename_i declares
          rw [if_pos declares]
          obtain ⟨_, _, restarted, run⟩ := run_bind_eq_ok.mp run
          cases restarted
          exact run_bind_eq_ok.mpr ⟨_, _, rfl, Agrees.run_alone inferInstance fits run⟩
        · rename_i other
          rw [if_neg other]
          exact Agrees.run_alone inferInstance (fits.suffix kept) run

instance [Agrees [] [] id start n (read .early) (read' .early)]
    [Agrees [] [] id start n (read .item) (read' .item)] :
    Agrees [] [] id start n (statements read) (statements read') := by
  dsimp only [statements]; infer_instance

instance : Agrees [] [] id false n (receiver read) (receiver read') := by
  dsimp only [receiver]; infer_instance

instance [AgreeInside n read' read] [∀ nonterminal, Advances Remains (read' nonterminal)]
    (attributes : List Phrase) :
    Agrees [] [] id false n (parameter read attributes) (parameter read' attributes) := by
  dsimp only [parameter]
  refine .bind (fun _ => ?_) inferInstance fun found => ?_
  · repeat' first
      | refine .bind inferInstance fun _ => ?_
      | refine .ite ?_ ?_
      | infer_instance
      | split
  · split <;> infer_instance

instance [AgreeInside n read' read] [∀ nonterminal, Advances Remains (read' nonterminal)] :
    Agrees [] [] id false n (parameters read) (parameters read') := by
  dsimp only [parameters]; infer_instance

instance [AgreeInside n read' read] [∀ nonterminal, Advances Remains (read' nonterminal)]
    (safe : Bool) : Agrees [] [] id start n (signature read safe) (signature read' safe) := by
  cases start <;> (dsimp only [signature]; infer_instance)

instance : Agrees [] [] id start n (functionBody read) (functionBody read') := by
  cases start <;> (dsimp only [functionBody]; infer_instance)

instance : Agrees [] [] id false n (initialValue read) (initialValue read') := by
  dsimp only [initialValue]; infer_instance

instance : Agrees [] [] id start n (constant read) (constant read') := by
  cases start <;> (dsimp only [constant]; infer_instance)

instance (conditional : Bool) (stop : List Token → Bool) : Agrees [] [] id false n
    (strictBounds read conditional stop) (strictBounds read' conditional stop) := by
  dsimp only [strictBounds]; infer_instance

instance (place : ClausePlace) :
    Agrees [] [] id start n (typeDeclaration read place) (typeDeclaration read' place) := by
  cases start <;> (dsimp only [typeDeclaration]; infer_instance)

section
variable [AgreeInside n read' read] [∀ nonterminal, Advances Remains (read' nonterminal)]

instance : Agrees [] [] id start n (traitMethod read) (traitMethod read') := by
  cases start <;> (dsimp only [traitMethod]; infer_instance)

instance : Agrees [] [] id start n (traitItem.traitConstant read) (traitItem.traitConstant read') := by
  cases start <;> (dsimp only [traitItem.traitConstant]; infer_instance)

instance : Agrees [] [] id false n (traitItem read) (traitItem read') := by
  dsimp only [traitItem]; infer_instance

instance : Agrees [] [] id false n (restOfTrait read) (restOfTrait read') := by
  dsimp only [restOfTrait]; infer_instance

instance : Agrees [] [] id start n (traitDeclaration read) (traitDeclaration read') := by
  cases start <;> (dsimp only [traitDeclaration]; infer_instance)

instance : Agrees [] [] id start n (traitOrAlias read) (traitOrAlias read') := by
  cases start <;> (dsimp only [traitOrAlias]; infer_instance)

instance (rooted : Bool) : Agrees [] [] id start n (useTree read rooted) (useTree read' rooted) := by
  cases start <;> (dsimp only [useTree]; infer_instance)

instance : Agrees [] [] id start n (useDeclaration read) (useDeclaration read') := by
  cases start <;> (dsimp only [useDeclaration]; infer_instance)

instance : Agrees [] [] id false n (namedField read) (namedField read') := by
  dsimp only [namedField]; infer_instance

instance : Agrees [] [] id start n (namedFields read) (namedFields read') := by
  cases start <;> (dsimp only [namedFields]; infer_instance)

instance : Agrees [] [] id start n (tupleFields read) (tupleFields read') := by
  cases start <;> (dsimp only [tupleFields]; infer_instance)

instance : Agrees [] [] id start n (structDeclaration read) (structDeclaration read') := by
  cases start <;> (dsimp only [structDeclaration]; infer_instance)

instance : Agrees [] [] id false n (variant read) (variant read') := by
  dsimp only [variant]; infer_instance

instance : Agrees [] [] id start n (enumDeclaration read) (enumDeclaration read') := by
  cases start <;> (dsimp only [enumDeclaration]; infer_instance)

instance : Agrees [] [] id start n (unionDeclaration read) (unionDeclaration read') := by
  cases start <;> (dsimp only [unionDeclaration]; infer_instance)

instance : Agrees [] [] id false n (implMember read) (implMember read') := by
  dsimp only [implMember]; infer_instance

instance : Agrees [] [] id start n (implDeclaration read) (implDeclaration read') := by
  cases start <;> (dsimp only [implDeclaration]; infer_instance)

instance : Agrees [] [] id false n (foreignMember read) (foreignMember read') := by
  dsimp only [foreignMember]; infer_instance

instance : Agrees [] [] id start n (foreignDeclaration read) (foreignDeclaration read') := by
  cases start <;> (dsimp only [foreignDeclaration]; infer_instance)

instance : Agrees [] [] id start n (moduleDeclaration read) (moduleDeclaration read') := by
  cases start <;> (dsimp only [moduleDeclaration]; infer_instance)

instance : Agrees [] [] id start n (staticDeclaration read) (staticDeclaration read') := by
  cases start <;> (dsimp only [staticDeclaration]; infer_instance)

instance : Agrees [] [] id start n (functionDeclaration read) (functionDeclaration read') := by
  cases start <;> (dsimp only [functionDeclaration]; infer_instance)

instance : Agrees [] [] id start n (itemAfterAttributes read) (itemAfterAttributes read') := by
  cases start <;> (dsimp only [itemAfterAttributes]; infer_instance)

instance : Agrees [] [] id start n (item read) (item read') := by
  cases start <;> (dsimp only [item]; infer_instance)

end

/-- The types in front of two ends, which may begin with a bound. -/
theorem agreeAhead_rule {v w : List Token} {s : Surrounding → Surrounding} [Stops v w]
    [AgreeAhead v w s n read read']
    (first : ∀ captures conditional, Agrees v w s true n (read (.bound captures conditional))
      (read' (.bound captures conditional))) :
    AgreeAhead v w s (n + 1) (rule read) (rule read') where
  type plus := by
    suffices type : Agrees v w s true n (type read plus) (type read' plus) from ⟨type.run⟩
    infer_instance
  bound captures conditional := by
    suffices bound : Agrees v w s true n (bound read captures conditional)
      (bound read' captures conditional) from ⟨bound.run⟩
    infer_instance

variable [AgreeInside n read' read] [∀ nonterminal, Advances Remains (read' nonterminal)]

theorem agreeFirst_rule : AgreeFirst n (rule read) (rule read') where
  bound captures conditional := by dsimp only [rule]; infer_instance
  unary braces := by dsimp only [rule]; infer_instance
  early := by dsimp only [rule]; infer_instance
  pattern := by dsimp only [rule]; infer_instance
  item := by dsimp only [rule]; infer_instance

theorem agrees_rule (first : AgreeFirst n read read') (nonterminal : Nonterminal) :
    Agrees [] [] id true n (rule read nonterminal) (rule read' nonterminal) := by
  have := first.bound
  have := first.unary
  have := first.early
  have := first.pattern
  have := first.item
  cases nonterminal <;> dsimp only [rule]
  case expr => dsimp only [expr]; infer_instance
  case alternatives => dsimp only [alternatives]; infer_instance
  all_goals infer_instance

instance (i : ℕ) (captures conditional : Bool) :
    Consumes (reader i (.bound captures conditional)) := by
  cases i with
  | zero => dsimp only [reader]; infer_instance
  | succ i => dsimp only [reader, rule]; infer_instance

/-- A depth that is twice the number of tokens is enough: of two rules in a row, one takes a
token. -/
theorem agreeInside_reader {a b : ℕ} (deep : 2 * n ≤ a) (deep' : 2 * n ≤ b) :
    AgreeInside n (reader a) (reader b) := by
  induction n generalizing a b with
  | zero => exact ⟨fun _ => ⟨fun fits => absurd fits (Nat.not_lt_zero _)⟩⟩
  | succ n ih =>
    obtain ⟨a, rfl⟩ : ∃ i, a = i + 2 := ⟨a - 2, by omega⟩
    obtain ⟨b, rfl⟩ : ∃ i, b = i + 2 := ⟨b - 2, by omega⟩
    have := ih (a := a) (b := b) (by omega) (by omega)
    have := ih (a := b) (b := a) (by omega) (by omega)
    have := ih (a := a + 1) (b := b + 1) (by omega) (by omega)
    have := ih (a := b + 1) (b := a + 1) (by omega) (by omega)
    have first : AgreeFirst n (reader (a + 1)) (reader (b + 1)) := agreeFirst_rule
    exact ⟨fun nonterminal => ⟨(agrees_rule first nonterminal).run⟩⟩

theorem agreeAhead_reader {v w : List Token} {s : Surrounding → Surrounding} [Stops v w] {a b : ℕ} (deep : 2 * n ≤ a)
    (deep' : 2 * n ≤ b) : AgreeAhead v w s n (reader a) (reader b) := by
  induction n generalizing a b with
  | zero =>
    exact ⟨fun _ => ⟨fun fits => absurd fits (Nat.not_lt_zero _)⟩,
      fun _ _ => ⟨fun fits => absurd fits (Nat.not_lt_zero _)⟩⟩
  | succ n ih =>
    obtain ⟨a, rfl⟩ : ∃ i, a = i + 2 := ⟨a - 2, by omega⟩
    obtain ⟨b, rfl⟩ : ∃ i, b = i + 2 := ⟨b - 2, by omega⟩
    have := agreeInside_reader (n := n) (a := a) (b := b) (by omega) (by omega)
    have := agreeInside_reader (n := n) (a := a + 1) (b := b + 1) (by omega) (by omega)
    have := ih (a := a) (b := b) (by omega) (by omega)
    have := ih (a := a + 1) (b := b + 1) (by omega) (by omega)
    have first (captures conditional : Bool) : Agrees v w s true n
        (reader (a + 1) (.bound captures conditional))
        (reader (b + 1) (.bound captures conditional)) := by
      dsimp only [reader, rule]
      infer_instance
    exact agreeAhead_rule first

end FormulaBinding.Grammar
