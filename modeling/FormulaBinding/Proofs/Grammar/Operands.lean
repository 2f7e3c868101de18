import FormulaBinding.Proofs.Grammar.Inputs
import FormulaBinding.Proofs.Grammar.PathEnds

/-!
# Reading calls

A path of words is read as such wherever it stands, as a type, as an operand and in front of
arguments. So is a call of a function with such a path, if its arguments are expressions.
-/

namespace FormulaBinding.Grammar
open FormulaBinding.Parser FormulaBinding.Token FormulaBinding.Lexer

variable {read : Reader} {n : Nat} {c : Cursor} {us body P : List Token} {w : String}

/-! ## Paths -/

/-- Words that a path may start with though they are reserved. -/
def headWords : List String := ["super", "self", "Self", "crate", "try"]

/-- The first word of a path, with what may come behind it in the path, or a double colon. -/
inductive HasHead : List Token → Prop
  | word {w : String} {e : Extent} {ts : List Token} (head : w ∉ reservedWords ∨ w ∈ headWords)
    (behind : ∀ t us, ts = t :: us → ∃ x j e', t = .mark x j e' ∧ x ∈ [':', '<']) :
    HasHead (.name w e :: ts)
  | root {e e' : Extent} {j : Bool} {ts : List Token} :
    HasHead (.mark ':' true e :: .mark ':' j e' :: ts)

theorem IsPath.hasHead {inExpr : Bool} (h : IsPath inExpr P) : HasHead P := by
  have pathWord : ∀ v ∈ pathWords, v ∈ headWords := by decide
  have special {v : String} (segment : v = "Self" ∨ IsSegment v) :
      v ∉ reservedWords ∨ v ∈ headWords := by
    rcases segment with rfl | free | mem
    · exact .inr (by decide)
    · exact .inl free
    · exact .inr (pathWord v mem)
  cases h.starts with
  | word w e segment => exact .word (special segment) nofun
  | segments w e e' e'' j ts segment =>
    refine .word (special segment) fun t us same => ?_
    cases same
    exact ⟨_, _, _, rfl, by decide⟩
  | arguments w e e' j ts segment =>
    refine .word (special (segment.imp_right .inl)) fun t us same => ?_
    cases same
    exact ⟨_, _, _, rfl, by decide⟩
  | root => exact .root

namespace HasHead

variable (h : HasHead P)
include h

theorem ne_nil : P ≠ [] := by cases h <;> exact List.cons_ne_nil _ _

theorem ahead_oneOf {ws : List String} (words : ∀ v ∈ ws, v ∈ reservedWords ∧ v ∉ headWords) :
    Ahead.oneOf ws (P ++ us) = false := by
  cases h with
  | @word w e ts head _ =>
    have other : w ∉ ws := fun mem =>
      head.elim (absurd (words w mem).1) (absurd · (words w mem).2)
    simpa [Ahead.oneOf] using other
  | root => rfl

theorem ahead_word {v : String} (reserved : v ∈ reservedWords) (other : v ∉ headWords) :
    Ahead.word v (P ++ us) = false := by
  cases h with
  | @word w e ts head _ =>
    refine beq_eq_false_iff_ne.mpr ?_
    rintro rfl
    exact head.elim (absurd reserved) (absurd · other)
  | root => rfl

theorem ahead_mark {m : String} {x : Char} {s : List Char} (chars : m.toList = x :: s)
    (other : x ≠ ':') : Ahead.mark m (P ++ us) = false := by
  rw [Ahead.mark, chars]
  cases h with
  | word => cases s <;> rfl
  | root => cases s <;> simp [Ahead.markChars, other]

theorem ahead_literal : Ahead.literal (P ++ us) = false := by
  have truth : ∀ v ∈ ["true", "false"], v ∈ reservedWords ∧ v ∉ headWords := by decide
  cases h with
  | @word w e ts head _ =>
    have other (v : String) (mem : v ∈ ["true", "false"]) : w ≠ v := by
      rintro rfl
      exact head.elim (absurd (truth w mem).1) (absurd · (truth w mem).2)
    simp [Ahead.literal, other "true" (by decide), other "false" (by decide)]
  | root => rfl

theorem ahead_group (d : Delimiter) : Ahead.group d (P ++ us) = false := by cases h <;> rfl

theorem ahead_lifetime : Ahead.lifetime (P ++ us) = false := by cases h <;> rfl

/-- The second token of a path is a colon or an angle bracket, if there is one. -/
theorem test_second {test : List Token → Bool} (none : test us = false)
    (marks : ∀ x ∈ [':', '<'], ∀ j e ts, test (.mark x j e :: ts) = false) :
    test ((P ++ us).drop 1) = false := by
  cases h with
  | @word w e ts _ behind =>
    cases ts with
    | nil => exact none
    | cons t ts =>
      obtain ⟨x, j, e', rfl, mem⟩ := behind t ts rfl
      exact marks x mem j e' _
  | root => exact marks ':' (by decide) _ _ _

end HasHead

/-- Whether tokens are read as a type that is a path, wherever the type ends behind them. -/
def ReadsPathType (P : List Token) (parts : List Phrase) : Prop :=
  ∀ {n : Nat} {c : Cursor} {us : List Token}, depth P ≤ n → EndsType us → c.rest = P ++ us →
    c.leftover = none → ∀ plus, type (reader n) plus c =
      .ok ((), { c with rest := us, row := .node .pathType [.node .path parts] :: c.row })

/-- Paths that may stand as a type: none starts with the word `try`. -/
structure IsTypePath (P : List Token) : Prop where
  isPath : IsPath false P
  tryless : Ahead.word "try" P = false

instance : DecidablePred IsTypePath := fun P =>
  decidable_of_iff (IsPath false P ∧ Ahead.word "try" P = false)
    ⟨fun h => ⟨h.1, h.2⟩, fun h => ⟨h.1, h.2⟩⟩

namespace IsTypePath

variable (h : IsTypePath P)
include h

theorem pathAhead : Grammar.pathAhead (P ++ us) = true := by
  have first := h.isPath.hasHead
  have tryless := h.tryless
  cases first with
  | @word w e ts head _ =>
    rcases head with free | mem
    · have named : Ahead.name (.name w e :: (ts ++ us)) = true := ahead_name free
      simp [Grammar.pathAhead, named]
    · have other : w ≠ "try" := by simpa [Ahead.word] using tryless
      have among : w ∈ ["super", "self", "Self", "crate"] := by simpa [headWords, other] using mem
      have special : Ahead.oneOf ["super", "self", "Self", "crate"] (.name w e :: (ts ++ us)) =
          true := List.contains_iff_mem.mpr among
      simp [Grammar.pathAhead, special]
  | root => rfl

theorem type_run : ∃ parts, ReadsPathType P parts := by
  obtain ⟨parts, run⟩ := h.isPath.run
  have first := h.isPath.hasHead
  refine ⟨parts, fun {n c us} enough ends rest clear plus => ?_⟩
  have noFor : Ahead.word "for" (P ++ us) = false := first.ahead_word (by decide) (by decide)
  have functions : functionAhead (P ++ us) = false := first.ahead_oneOf (by decide)
  have hash : Ahead.mark "#" ((P ++ us).drop 1) = false :=
    first.test_second (ends.mark (x := '#') (s := []) rfl (by decide))
      (by simp [Ahead.mark, Ahead.markChars])
  have builtin : builtinAhead (P ++ us) = false := by rw [builtinAhead, hash, Bool.and_false]
  have less : Ahead.mark "<" (P ++ us) = false := first.ahead_mark (s := []) rfl (by decide)
  have bang : Ahead.mark "!" us = false := ends.mark (x := '!') (s := []) rfl (by decide)
  have more : Ahead.mark "+" us = false := ends.mark (x := '+') (s := []) rfl (by decide)
  have path : Grammar.anyPath (reader n) false { c with row := [] } =
      .ok ((), { c with rest := us, row := [.node .path parts] }) := by
    refine run_bind_eq_ok.mpr ⟨_, _, peek_run _, ?_⟩
    simp only [rest, less, Bool.false_eq_true, if_false]
    exact run enough ends.endsPath rfl clear
  rw [← rest] at noFor functions builtin
  rw [type_eq_of_pathAhead noFor (by rw [rest]; exact first.ahead_group _) functions builtin
    (by rw [rest]; exact h.pathAhead)]
  exact pathTypeOrBounds_run path (.inr bang) (fun _ => more)

end IsTypePath

/-! ## Operands -/

/-- Whether an expression ends in front of tokens. -/
inductive EndsExpr : List Token → Prop
  | nil : EndsExpr []
  | comma (e : Extent) (ts : List Token) : EndsExpr (.mark ',' false e :: ts)
  | semicolon (e : Extent) (ts : List Token) : EndsExpr (.mark ';' false e :: ts)

/-- Whether an operand without arguments ends in front of tokens. -/
inductive EndsOperand : List Token → Prop
  | expr {ts : List Token} (ends : EndsExpr ts) : EndsOperand ts
  | call (body : List Token) (o cl : Extent) (ts : List Token) :
    EndsOperand (.group .parenthesis body o cl :: ts)

theorem EndsOperand.mark (ends : EndsOperand us) {m : String} {x : Char} {s : List Char}
    (chars : m.toList = x :: s) (other : x ∉ [',', ';']) : Ahead.mark m us = false := by
  simp only [List.mem_cons, List.not_mem_nil, or_false, not_or] at other
  rw [Ahead.mark, chars]
  rcases ends with ⟨_ | _ | _⟩ | _
  all_goals cases s <;> simp [Ahead.markChars, other]

theorem EndsOperand.endsPath (ends : EndsOperand us) : EndsPath true us where
  colons := ends.mark (x := ':') (s := [':']) rfl (by decide)
  arguments := by
    have colons : Ahead.mark "::" us = false := ends.mark (x := ':') (s := [':']) rfl (by decide)
    simp [argumentsAhead, colons]

theorem EndsOperand.brace (ends : EndsOperand us) : Ahead.group .brace us = false := by
  rcases ends with ⟨_ | _ | _⟩ | _ <;> rfl

theorem EndsExpr.trailers_run (read : Reader) (ends : EndsExpr c.rest) :
    trailers read c = .ok ((), c) := by
  rcases c with ⟨rest, inside, leftover, row⟩
  cases ends
  all_goals
    refine run_bind_eq_ok.mpr ⟨_, _, rfl, run_bind_eq_ok.mpr ⟨false, _, ?_, rfl⟩⟩
    refine run_bind_eq_ok.mpr ⟨_, _, rfl, run_bind_eq_ok.mpr ⟨false, _, rfl, ?_⟩⟩
    simp only [Bool.false_eq_true, if_false]
    refine run_bind_eq_ok.mpr ⟨false, _, rfl, run_bind_eq_ok.mpr ⟨false, _, rfl, ?_⟩⟩
    simp only [Bool.and_false, Bool.false_and, Bool.false_eq_true, if_false]
    refine run_bind_eq_ok.mpr ⟨false, _, rfl, ?_⟩
    simp only [Bool.false_eq_true, if_false]
    refine run_bind_eq_ok.mpr ⟨false, _, rfl, ?_⟩
    simp only [Bool.and_false, Bool.false_eq_true, if_false]
    rfl

theorem EndsExpr.noOperator (ends : EndsExpr us) : binaryOperator? us = none ∧
    assignAhead us = false ∧ Ahead.mark ".." us = false ∧ Ahead.word "as" us = false := by
  cases ends <;> exact ⟨rfl, rfl, rfl, rfl⟩

theorem EndsExpr.operators_run (ends : EndsExpr c.rest) (braces : Bool) (base : Precedence) :
    operators read braces base c = .ok ((), c) := by
  obtain ⟨binary, assign, range, cast⟩ := ends.noOperator
  refine run_bind_eq_ok.mpr ⟨_, _, rfl, run_bind_eq_ok.mpr ⟨false, c, ?_, rfl⟩⟩
  refine run_bind_eq_ok.mpr ⟨_, _, rfl, ?_⟩
  split
  · rfl
  · refine run_bind_eq_ok.mpr ⟨_, _, rfl, ?_⟩
    simp only [binary, assign, range, cast, Bool.and_false, Bool.false_eq_true, if_false]
    rfl

/-- Paths that may stand as an operand: all but the word `try` by itself. -/
structure IsOperand (P : List Token) : Prop where
  isPath : IsPath true P
  alone : ∀ e, P ≠ [.name "try" e]

namespace IsOperand

variable (h : IsOperand P)
include h

theorem operandAhead : pathOperandAhead (P ++ us) = true := by
  have cases_ {w : String} {e : Extent} {ts : List Token} (segment : w = "Self" ∨ IsSegment w) :
      pathOperandAhead (.name w e :: ts) = true ∨ w = "try" := by
    rcases segment with rfl | free | mem
    · exact .inl rfl
    · left
      have named : Ahead.name (.name w e :: ts) = true := ahead_name free
      simp [pathOperandAhead, named]
    · simp only [pathWords, List.mem_cons, List.not_mem_nil, or_false] at mem
      rcases mem with rfl | rfl | rfl | rfl
      · exact .inl rfl
      · exact .inl rfl
      · exact .inl rfl
      · exact .inr rfl
  generalize same : P = ts
  cases same ▸ h.isPath.starts with
  | word w e segment =>
    exact (cases_ segment).resolve_right fun isTry => h.alone e (isTry ▸ same)
  | segments w e e' e'' j ts segment =>
    rcases cases_ segment with ahead | rfl
    · exact ahead
    · rfl
  | arguments _ _ _ _ _ _ type => cases type
  | root => rfl

theorem operand_run : ∃ parts, ∀ {n : Nat} {c : Cursor} {us : List Token}, depth P ≤ n →
    EndsOperand us → c.rest = P ++ us → c.leftover = none → ∀ braces,
      operand (reader n) braces c =
        .ok ((), { c with rest := us, row := .node .pathExpr [.node .path parts] :: c.row }) := by
  obtain ⟨parts, run⟩ := h.isPath.run
  have first := h.isPath.hasHead
  refine ⟨parts, fun {n c us} enough ends rest clear braces => ?_⟩
  have noWord {v : String} (reserved : v ∈ reservedWords) (other : v ∉ headWords) :
      Ahead.word v (P ++ us) = false := first.ahead_word reserved other
  have bar : Ahead.mark "|" (P ++ us) = false := first.ahead_mark (s := []) rfl (by decide)
  have closure : closureAhead (P ++ us) = false := by
    simp [closureAhead, bar, noWord (v := "move") (by decide) (by decide),
      noWord (v := "for") (by decide) (by decide), noWord (v := "const") (by decide) (by decide),
      noWord (v := "static") (by decide) (by decide), noWord (v := "async") (by decide) (by decide)]
  have hash : Ahead.mark "#" ((P ++ us).drop 1) = false :=
    first.test_second (ends.mark (x := '#') (s := []) rfl (by decide)) (by simp [Ahead.mark, Ahead.markChars])
  have builtin : builtinAhead (P ++ us) = false := by rw [builtinAhead, hash, Bool.and_false]
  have brace : Ahead.group .brace ((P ++ us).drop 1) = false :=
    first.test_second ends.brace (by simp [Ahead.group])
  have bang : Ahead.mark "!" us = false := ends.mark (x := '!') (s := []) rfl (by decide)
  have path : Grammar.anyPath (reader n) true { c with row := [] } =
      .ok ((), { c with rest := us, row := [.node .path parts] }) := by
    refine run_bind_eq_ok.mpr ⟨_, _, peek_run _, ?_⟩
    have less : Ahead.mark "<" (P ++ us) = false := first.ahead_mark (s := []) rfl (by decide)
    simp only [rest, less, Bool.false_eq_true, if_false]
    exact run enough ends.endsPath rfl clear
  refine run_bind_eq_ok.mpr ⟨_, _, rfl, ?_⟩
  simp only [rest, first.ahead_literal, noWord (v := "async") (by decide) (by decide), brace,
    closure, builtin, h.operandAhead, Bool.false_and, Bool.and_false, Bool.false_eq_true, if_false,
    if_true]
  refine run_bind_eq_ok.mpr ⟨_, _, node_eq_ok.mpr ⟨_, path, rfl⟩, ?_⟩
  refine run_bind_eq_ok.mpr ⟨_, _, rfl, ?_⟩
  refine run_bind_eq_ok.mpr ⟨_, _, peek_run _, run_bind_eq_ok.mpr ⟨_, _, peek_run _, ?_⟩⟩
  simp only [bang, Bool.and_false, Bool.false_and, Bool.false_eq_true, if_false]
  refine run_bind_eq_ok.mpr ⟨_, _, peek_run _, ?_⟩
  simp only [ends.brace, Bool.and_false, Bool.false_eq_true, if_false]
  rfl

end IsOperand

/-! ## Expressions -/

theorem depth_lt_append {ts us : List Token} (some : ts ≠ []) : depth us < depth (ts ++ us) := by
  have more := Nat.lt_of_lt_of_le (List.length_pos_iff.mpr some) (length_le_sizeList ts)
  rw [depth, depth, sizeList_append]
  omega

theorem exists_of_depth_lt {ts : List Token} (h : depth ts < n) : ∃ m, n = m + 1 ∧ depth ts ≤ m :=
  ⟨n - 1, by omega, by omega⟩

def prefixMarks : List String := ["#", "&", "*", "!", "-"]

theorem unary_run {braces : Bool} {d e : Cursor}
    (marks : ∀ m ∈ prefixMarks, Ahead.mark m c.rest = false)
    (first : operand read braces c = .ok ((), d)) (more : trailers read d = .ok ((), e)) :
    unary read braces c = .ok ((), e) := by
  have attributes : collect (outerAttributes read) c = .ok (((), []), c) :=
    collect_eq_ok.mpr ⟨_, outerAttributes_run (marks "#" (by decide)), rfl, rfl⟩
  rw [unary, run_bind_of_ok attributes]
  refine run_bind_eq_ok.mpr ⟨_, _, peek_run _, ?_⟩
  simp only [marks "&" (by decide), Bool.false_eq_true, if_false]
  refine run_bind_eq_ok.mpr ⟨_, _, peek_run _, run_bind_eq_ok.mpr ⟨_, _, peek_run _,
    run_bind_eq_ok.mpr ⟨_, _, peek_run _, ?_⟩⟩⟩
  simp only [marks "*" (by decide), marks "!" (by decide), marks "-" (by decide), Bool.or_self,
    Bool.false_eq_true, if_false]
  exact run_bind_eq_ok.mpr ⟨_, _, first, run_bind_eq_ok.mpr ⟨_, _, more, rfl⟩⟩

/-- The kinds of phrases that the expressions of generated functions are. -/
def simpleKinds : List Kind := [.pathExpr, .literalExpr, .referenceExpr, .callExpr]

/-- Whether tokens are read as an expression without operators. -/
def ReadsExpr (ts : List Token) : Prop :=
  ts ≠ [] ∧ ∀ n ≥ depth ts, ∀ {c : Cursor} {us : List Token}, EndsExpr us → c.rest = ts ++ us →
    c.leftover = none → ∃ q, (∃ l ∈ simpleKinds, q.kind? = some l) ∧
      unary (reader n) true c = .ok ((), { c with rest := us, row := q :: c.row })

theorem ReadsExpr.expr_run {ts : List Token} (h : ReadsExpr ts) (enough : depth ts ≤ n)
    (ends : EndsExpr us) (rest : c.rest = ts ++ us) (clear : c.leftover = none) :
    ∃ q, reader (n + 2) (.expr true) c = .ok ((), { c with rest := us, row := q :: c.row }) := by
  obtain ⟨q, -, first⟩ := h.2 n enough ends rest clear
  refine ⟨q, run_bind_eq_ok.mpr ⟨_, _, first, ?_⟩⟩
  exact EndsExpr.operators_run (c := { c with rest := us, row := q :: c.row }) ends true .jump

theorem HasHead.marks (h : HasHead P) : ∀ m ∈ prefixMarks, Ahead.mark m (P ++ us) = false := by
  intro m mem
  simp only [prefixMarks, List.mem_cons, List.not_mem_nil, or_false] at mem
  rcases mem with rfl | rfl | rfl | rfl | rfl
  all_goals exact h.ahead_mark rfl (by decide)

theorem IsOperand.readsExpr (h : IsOperand P) : ReadsExpr P := by
  obtain ⟨parts, run⟩ := h.operand_run
  have first := h.isPath.hasHead
  refine ⟨first.ne_nil, fun n enough c us ends rest clear => ⟨.node .pathExpr [.node .path parts],
    ⟨_, by decide, rfl⟩, ?_⟩⟩
  exact unary_run (by rw [rest]; exact first.marks) (run enough (.expr ends) rest clear true)
    (EndsExpr.trailers_run _ (c := { c with
      rest := us, row := .node .pathExpr [.node .path parts] :: c.row }) ends)

theorem isPath_of_segments {inExpr : Bool} {root : String} {ws : List String} {ts : List Token}
    {e : Extent} (segments : AreSegments ws ts) (first : IsSegment root)
    (all : ∀ w ∈ ws, IsSegment w) : IsPath inExpr (.name root e :: ts) :=
  isOk_iff.mpr ⟨_, runAll_eq_ok.mpr ⟨_, path_run _ segments first all endsPath_nil
    (List.append_nil (Token.name root e :: ts)).symm, rfl, rfl, rfl⟩⟩

theorem isTypePath_of_segments {root : String} {ws : List String} {ts : List Token} {e : Extent}
    (segments : AreSegments ws ts) (first : IsRoot root) (all : ∀ w ∈ ws, IsSegment w) :
    IsTypePath (.name root e :: ts) where
  isPath := isPath_of_segments segments first.isSegment all
  tryless := beq_eq_false_iff_ne.mpr (first.ne (by decide) (by decide))

theorem readsPathType_of_segments {root : String} {ws : List String} {ts : List Token} {e : Extent}
    (segments : AreSegments ws ts) (first : IsRoot root) (all : ∀ w ∈ ws, IsSegment w) :
    ReadsPathType (.name root e :: ts) ((Token.name root e :: ts).map segmentPart) :=
  fun _ ends rest _ => type_path_run segments first all ends rest

theorem isOperand_word (free : w ∉ reservedWords) : IsOperand (ident w) where
  isPath := isPath_of_segments .nil (.inl free) (List.forall_mem_nil _)
  alone e same := by
    cases same
    exact free (by decide)

theorem readsExpr_quoted (text : String) : ReadsExpr (quoted text) := by
  refine ⟨List.cons_ne_nil _ _, fun n _ c us ends rest _ => ?_⟩
  rcases c with ⟨_, inside, leftover, row⟩
  cases rest
  refine ⟨.node .literalExpr [.token (.literal (Literal.quote text) Extent.nowhere)],
    ⟨_, by decide, rfl⟩, unary_run (fun m mem => ?_) rfl (EndsExpr.trailers_run _ ends)⟩
  simp only [prefixMarks, List.mem_cons, List.not_mem_nil, or_false] at mem
  rcases mem with rfl | rfl | rfl | rfl | rfl
  all_goals rfl

theorem EndsExpr.noRaw (ends : EndsExpr us) : Ahead.oneOf ["mut", "const"] us = false := by
  cases ends <;> rfl

theorem readsExpr_reference (free : w ∉ reservedWords) : ReadsExpr (op "&" ++ ident w) := by
  refine ⟨List.cons_ne_nil _ _, fun n enough c us ends rest clear => ?_⟩
  obtain ⟨n, rfl, fewer⟩ := exists_of_depth_lt (Nat.lt_of_lt_of_le
    (depth_lt_append (List.cons_ne_nil _ _) : depth (ident w) < depth (op "&" ++ ident w)) enough)
  have rest : c.rest = .mark '&' false Extent.nowhere :: .name w Extent.nowhere :: us := rest
  rcases c with ⟨_, inside, leftover, row⟩
  cases rest
  cases clear
  obtain ⟨q, -, run⟩ := (isOperand_word free).readsExpr.2 n fewer (c := ⟨
    .name w Extent.nowhere :: us, inside, none, [.token (.mark '&' false Extent.nowhere)]⟩)
    ends rfl rfl
  have noMut : Ahead.word "mut" (.name w Extent.nowhere :: us) = false :=
    ahead_word_of_reserved free (by decide)
  refine ⟨.node .referenceExpr [.token (.mark '&' false Extent.nowhere), q],
    ⟨_, by decide, rfl⟩, ?_⟩
  refine run_bind_eq_ok.mpr ⟨((), []), _, rfl, run_bind_eq_ok.mpr ⟨true, _, rfl, ?_⟩⟩
  simp only [if_true]
  refine run_bind_eq_ok.mpr ⟨_, _, rfl, run_bind_eq_ok.mpr ⟨_, _, rfl, ?_⟩⟩
  simp only [List.drop_succ_cons, List.drop_zero, ends.noRaw, Bool.and_false, Bool.false_eq_true,
    if_false]
  refine node_eq_ok.mpr ⟨⟨us, inside, none, [q, .token (.mark '&' false Extent.nowhere)]⟩, ?_, rfl⟩
  refine run_bind_eq_ok.mpr ⟨_, _, rfl, run_bind_eq_ok.mpr ⟨(), _, rfl, ?_⟩⟩
  refine run_bind_eq_ok.mpr ⟨(), _, discard_eq_ok.mpr ⟨false, ?_⟩, run⟩
  exact word?_eq_ok.mpr (.inr ⟨rfl, noMut, rfl⟩)

theorem readsExpr_mutable (free : w ∉ reservedWords) :
    ReadsExpr (op "&" ++ ident "mut" ++ ident w) := by
  refine ⟨List.cons_ne_nil _ _, fun n enough c us ends rest clear => ?_⟩
  obtain ⟨n, rfl, fewer⟩ := exists_of_depth_lt (Nat.lt_of_lt_of_le
    (depth_lt_append (List.cons_ne_nil _ _) :
      depth (ident w) < depth (op "&" ++ ident "mut" ++ ident w)) enough)
  have rest : c.rest = .mark '&' false Extent.nowhere :: .name "mut" Extent.nowhere ::
    .name w Extent.nowhere :: us := rest
  rcases c with ⟨_, inside, leftover, row⟩
  cases rest
  cases clear
  obtain ⟨q, -, run⟩ := (isOperand_word free).readsExpr.2 n fewer (c := ⟨
    .name w Extent.nowhere :: us, inside, none, [.token (.name "mut" Extent.nowhere),
      .token (.mark '&' false Extent.nowhere)]⟩) ends rfl rfl
  refine ⟨.node .referenceExpr [.token (.mark '&' false Extent.nowhere),
    .token (.name "mut" Extent.nowhere), q], ⟨_, by decide, rfl⟩, ?_⟩
  refine run_bind_eq_ok.mpr ⟨((), []), _, rfl, run_bind_eq_ok.mpr ⟨true, _, rfl, ?_⟩⟩
  simp only [if_true]
  refine run_bind_eq_ok.mpr ⟨false, _, rfl, run_bind_eq_ok.mpr ⟨_, _, rfl, ?_⟩⟩
  simp only [Bool.false_and, Bool.false_eq_true, if_false]
  refine node_eq_ok.mpr ⟨⟨us, inside, none, [q, .token (.name "mut" Extent.nowhere),
    .token (.mark '&' false Extent.nowhere)]⟩, ?_, rfl⟩
  refine run_bind_eq_ok.mpr ⟨_, _, rfl, run_bind_eq_ok.mpr ⟨(), _, rfl, ?_⟩⟩
  exact run_bind_eq_ok.mpr ⟨(), _, rfl, run⟩

/-! ## Calls -/

theorem sizeList_le_commaSeparated {tss : List (List Token)} {ts : List Token} (mem : ts ∈ tss) :
    sizeList ts ≤ sizeList (commaSeparated tss) := by
  induction tss with
  | nil => cases mem
  | cons us tss ih =>
    cases tss with
    | nil => exact (congrArg sizeList (List.mem_singleton.mp mem)).le
    | cons us' tss =>
      rw [commaSeparated_cons_cons, sizeList_append, sizeList]
      rcases List.mem_cons.mp mem with rfl | mem
      · exact Nat.le_add_right _ _
      · have smaller := ih mem
        omega

theorem repeatUpTo_separated_run {m : Nat} {args : List (List Token)}
    (each : ∀ ts ∈ args, ReadsExpr ts) (enough : ∀ ts ∈ args, depth ts ≤ n)
    (many : args.length < m) (rest : c.rest = commaSeparated args) (clear : c.leftover = none) :
    ∃ qs, repeatUpTo (do
      if ← atEnd then return false
      reader (n + 2) (.expr true)
      if ← atEnd then return false
      mark ","
      return true) m c = .ok ((), { c with rest := [], row := qs ++ c.row }) := by
  induction args generalizing c m with
  | nil =>
    obtain ⟨m, rfl⟩ := Nat.exists_eq_succ_of_ne_zero (Nat.ne_zero_of_lt many)
    rcases c with ⟨_, inside, leftover, row⟩
    cases rest
    exact ⟨[], rfl⟩
  | cons ts args ih =>
    obtain ⟨m, rfl⟩ := Nat.exists_eq_succ_of_ne_zero (Nat.ne_zero_of_lt many)
    have reads := each ts List.mem_cons_self
    have fits := enough ts List.mem_cons_self
    have goes : atEnd c = .ok (false, c) := by
      have more : c.rest.isEmpty = false := by
        rw [rest]
        cases args <;> simp [commaSeparated, reads.1]
      rw [← more]
      rfl
    cases args with
    | nil =>
      have alone : c.rest = ts ++ [] := by rw [rest, List.append_nil]; rfl
      obtain ⟨q, first⟩ := reads.expr_run fits .nil alone clear
      refine ⟨[q], run_bind_eq_ok.mpr ⟨false, _, run_bind_eq_ok.mpr ⟨_, _, goes, ?_⟩, rfl⟩⟩
      simp only [Bool.false_eq_true, if_false]
      exact run_bind_eq_ok.mpr ⟨_, _, first, rfl⟩
    | cons ts' args =>
      rw [commaSeparated_cons_cons] at rest
      obtain ⟨q, first⟩ := reads.expr_run fits (.comma _ _) rest clear
      obtain ⟨qs, others⟩ := ih (c := { c with
        rest := commaSeparated (ts' :: args)
        row := .token (.mark ',' false Extent.nowhere) :: q :: c.row })
        (fun ts mem => each ts (List.mem_cons_of_mem _ mem))
        (fun ts mem => enough ts (List.mem_cons_of_mem _ mem)) (by simpa using many) rfl clear
      refine ⟨qs ++ [.token (.mark ',' false Extent.nowhere), q], run_bind_eq_ok.mpr ⟨true, _,
        run_bind_eq_ok.mpr ⟨_, _, goes, ?_⟩, others.trans (by simp)⟩⟩
      simp only [Bool.false_eq_true, if_false]
      exact run_bind_eq_ok.mpr ⟨_, _, first, rfl⟩

theorem length_le_length_commaSeparated {args : List (List Token)} (some : ∀ ts ∈ args, ts ≠ []) :
    args.length ≤ (commaSeparated args).length := by
  induction args with
  | nil => exact Nat.zero_le _
  | cons ts args ih =>
    have first := List.length_pos_iff.mpr (some ts List.mem_cons_self)
    cases args with
    | nil => exact first
    | cons ts' args =>
      have others := ih fun ts mem => some ts (List.mem_cons_of_mem _ mem)
      rw [commaSeparated_cons_cons]
      simp only [List.length_append, List.length_cons] at others ⊢
      omega

theorem arguments_run {args : List (List Token)} (each : ∀ ts ∈ args, ReadsExpr ts)
    (enough : depth (commaSeparated args) ≤ n)
    (rest : c.rest = inParens (commaSeparated args) ++ us) (clear : c.leftover = none) :
    ∃ q, arguments (reader (n + 2)) c =
      .ok ((), { c with rest := us, row := q :: c.row }) := by
  rcases c with ⟨_, inside, leftover, row⟩
  cases rest
  cases clear
  have fits : ∀ ts ∈ args, depth ts ≤ n := fun ts mem => by
    have smaller := sizeList_le_commaSeparated mem
    rw [depth] at enough ⊢
    omega
  obtain ⟨qs, run⟩ := repeatUpTo_separated_run (c := ⟨commaSeparated args,
    some (.parenthesis, Extent.nowhere), none, []⟩) each fits (Nat.lt_succ_of_le
      (length_le_length_commaSeparated fun ts mem => (each ts mem).1)) rfl rfl
  rw [List.append_nil] at run
  exact ⟨.group .parenthesis qs.reverse Extent.nowhere Extent.nowhere,
    inGroup_eq_ok.mpr ⟨_, _, _, _, _, rfl, run_bind_eq_ok.mpr ⟨_, _, rfl, run⟩, rfl⟩⟩

theorem trailers_call_run {args : List (List Token)} {q : Phrase} {row : List Phrase}
    (each : ∀ ts ∈ args, ReadsExpr ts) (enough : depth (commaSeparated args) ≤ n)
    (last : c.row = q :: row) (ends : EndsExpr us)
    (rest : c.rest = inParens (commaSeparated args) ++ us) (clear : c.leftover = none) :
    ∃ q', trailers (reader (n + 2)) c =
      .ok ((), { c with rest := us, row := .node .callExpr [q, q'] :: row }) := by
  rcases c with ⟨_, inside, leftover, row⟩
  cases rest
  cases clear
  cases last
  obtain ⟨q', run⟩ := arguments_run (c := ⟨inParens (commaSeparated args) ++ us, inside, none, [q]⟩)
    each enough rfl rfl
  have call : extend .callExpr (arguments (reader (n + 2)))
      ⟨inParens (commaSeparated args) ++ us, inside, none, q :: row⟩ =
        .ok ((), ⟨us, inside, none, .node .callExpr [q, q'] :: row⟩) :=
    node_eq_ok.mpr ⟨_, run_bind_eq_ok.mpr ⟨_, _, rfl, run⟩, rfl⟩
  have later := EndsExpr.trailers_run (reader (n + 2))
    (c := ⟨us, inside, none, .node .callExpr [q, q'] :: row⟩) ends
  refine ⟨q', run_bind_eq_ok.mpr ⟨_, _, rfl, run_bind_eq_ok.mpr ⟨true, _, ?_, later⟩⟩⟩
  refine run_bind_eq_ok.mpr ⟨_, _, rfl, run_bind_eq_ok.mpr ⟨true, _, rfl, ?_⟩⟩
  simp only [if_true]
  exact run_bind_eq_ok.mpr ⟨_, _, call, rfl⟩

theorem exists_of_depth_call {ts args : List Token} (h : depth (ts ++ inParens args) ≤ n) :
    ∃ m, n = m + 4 ∧ depth ts ≤ m ∧ depth args ≤ m := by
  have size : sizeList (ts ++ inParens args) = sizeList ts + (sizeList args + 1) := by
    rw [sizeList_append]
    rfl
  rw [depth, size] at h
  refine ⟨n - 4, ?_, ?_, ?_⟩ <;> (try rw [depth]) <;> omega

theorem IsOperand.readsExpr_call (h : IsOperand P) {args : List (List Token)}
    (each : ∀ ts ∈ args, ReadsExpr ts) :
    ReadsExpr (P ++ inParens (commaSeparated args)) := by
  obtain ⟨parts, run⟩ := h.operand_run
  have head := h.isPath.hasHead
  refine ⟨by simp [head.ne_nil], fun n enough c us ends rest clear => ?_⟩
  obtain ⟨n, rfl, fits, fits'⟩ := exists_of_depth_call enough
  rw [List.append_assoc] at rest
  have first := run (n := n + 4) (by omega) (.call _ _ _ us) rest clear true
  obtain ⟨q', more⟩ := trailers_call_run (n := n + 2) (c := { c with
    rest := inParens (commaSeparated args) ++ us
    row := .node .pathExpr [.node .path parts] :: c.row }) each (by omega) rfl ends rfl clear
  exact ⟨_, ⟨_, by decide, rfl⟩, unary_run (by rw [rest]; exact head.marks) first more⟩

variable {E R : List Token}

def qualifiedTokens (E R : List Token) (w : String) : List Token :=
  op "<" ++ E ++ ident "as" ++ R ++ op ">" ++ op "::" ++ ident w

theorem qualified_run (type : IsTypePath E) (trait : IsPath false R) (free : w ∉ reservedWords)
    (enough : depth E ≤ n) (enough' : depth R ≤ n + 1)
    (rest : c.rest = qualifiedTokens E R w ++ (inParens body ++ us)) (clear : c.leftover = none) :
    ∃ q, anyPath (reader (n + 1)) true c =
      .ok ((), { c with rest := inParens body ++ us, row := q :: c.row }) := by
  let tail : List Token := .mark '>' false Extent.nowhere :: .mark ':' true Extent.nowhere ::
    .mark ':' false Extent.nowhere :: .name w Extent.nowhere :: (inParens body ++ us)
  have rest : c.rest = .mark '<' false Extent.nowhere ::
      (E ++ .name "as" Extent.nowhere :: (R ++ tail)) := by
    rw [rest]
    simp [qualifiedTokens, op, markList, ident, tail]
  rcases c with ⟨_, inside, leftover, row⟩
  cases rest
  obtain ⟨ps, type⟩ := type.type_run
  obtain ⟨qs, trait⟩ := trait.run
  let own : Phrase := .node .pathType [.node .path ps]
  have type := type (c := ⟨E ++ .name "as" Extent.nowhere :: (R ++ tail),
    inside, leftover, [.token (.mark '<' false Extent.nowhere)]⟩) enough
    (.word "as" Extent.nowhere (R ++ tail)) rfl clear true
  have ends : EndsPath false tail := ⟨rfl, rfl⟩
  have trait := trait (c := ⟨R ++ tail, inside, leftover,
    [.token (.name "as" Extent.nowhere), own, .token (.mark '<' false Extent.nowhere)]⟩)
    enough' ends rfl clear
  have segment : segment (reader (n + 1)) true _ = _ := segment_run (reader (n + 1)) (c := ⟨
    .name w Extent.nowhere :: (inParens body ++ us), inside, leftover, [.token (.mark ':' false Extent.nowhere),
      .token (.mark ':' true Extent.nowhere), .token (.mark '>' false Extent.nowhere), .node .path qs,
      .token (.name "as" Extent.nowhere), own, .token (.mark '<' false Extent.nowhere)]⟩)
    rfl (.inl free) rfl
  refine ⟨.node .qualifiedPath [.token (.mark '<' false Extent.nowhere), own,
    .token (.name "as" Extent.nowhere), .node .path qs, .token (.mark '>' false Extent.nowhere),
    .token (.mark ':' true Extent.nowhere), .token (.mark ':' false Extent.nowhere),
    .node .segment [.token (.name w Extent.nowhere)]], run_bind_eq_ok.mpr ⟨true, _, rfl, ?_⟩⟩
  simp only [if_true]
  refine node_eq_ok.mpr ⟨⟨inParens body ++ us, inside, leftover,
    [.node .segment [.token (.name w Extent.nowhere)], .token (.mark ':' false Extent.nowhere),
      .token (.mark ':' true Extent.nowhere), .token (.mark '>' false Extent.nowhere), .node .path qs,
      .token (.name "as" Extent.nowhere), own, .token (.mark '<' false Extent.nowhere)]⟩, ?_, rfl⟩
  refine run_bind_eq_ok.mpr ⟨_, _, rfl, run_bind_eq_ok.mpr ⟨_, _, type, ?_⟩⟩
  refine run_bind_eq_ok.mpr ⟨true, _, rfl, ?_⟩
  simp only [if_true]
  refine run_bind_eq_ok.mpr ⟨_, _, trait, ?_⟩
  refine run_bind_eq_ok.mpr ⟨_, _, rfl, run_bind_eq_ok.mpr ⟨_, _, rfl, ?_⟩⟩
  refine run_bind_eq_ok.mpr ⟨_, _, rfl, run_bind_eq_ok.mpr ⟨false, _, ?_, rfl⟩⟩
  exact run_bind_eq_ok.mpr ⟨_, _, segment, rfl⟩

theorem qualified_operand_run (type : IsTypePath E) (trait : IsPath false R)
    (free : w ∉ reservedWords) (enough : depth E ≤ n) (enough' : depth R ≤ n + 1)
    (rest : c.rest = qualifiedTokens E R w ++ (inParens body ++ us)) (clear : c.leftover = none) :
    ∃ q, operand (reader (n + 1)) true c =
      .ok ((), { c with rest := inParens body ++ us, row := .node .pathExpr [q] :: c.row }) := by
  obtain ⟨q, path⟩ := qualified_run (c := { c with row := [] }) type trait free enough enough' rest
    clear
  have start : c.rest = .mark '<' false Extent.nowhere :: (E ++ (ident "as" ++ (R ++ (op ">" ++
      (op "::" ++ (ident w ++ (inParens body ++ us))))))) := by
    rw [rest]
    simp [qualifiedTokens, op, markList]
  rcases c with ⟨_, inside, leftover, row⟩
  cases start
  refine ⟨q, run_bind_eq_ok.mpr ⟨_, _, rfl, run_bind_eq_ok.mpr ⟨_, _, node_eq_ok.mpr ⟨_, path, rfl⟩,
    ?_⟩⟩⟩
  refine run_bind_eq_ok.mpr ⟨_, _, rfl, run_bind_eq_ok.mpr ⟨false, _, rfl, ?_⟩⟩
  refine run_bind_eq_ok.mpr ⟨false, _, rfl, ?_⟩
  simp only [Bool.and_false, Bool.false_and, Bool.false_eq_true, if_false]
  refine run_bind_eq_ok.mpr ⟨false, _, rfl, ?_⟩
  simp only [Bool.and_false, Bool.false_eq_true, if_false]
  rfl

theorem readsExpr_qualified (type : IsTypePath E) (trait : IsPath false R)
    (free : w ∉ reservedWords) {args : List (List Token)} (each : ∀ ts ∈ args, ReadsExpr ts) :
    ReadsExpr (qualifiedTokens E R w ++ inParens (commaSeparated args)) := by
  refine ⟨List.cons_ne_nil _ _, fun n enough c us ends rest clear => ?_⟩
  obtain ⟨n, rfl, fits, fits'⟩ := exists_of_depth_call enough
  have smaller : depth E ≤ n ∧ depth R ≤ n := by
    simp only [qualifiedTokens, depth, sizeList_append] at fits ⊢
    omega
  rw [List.append_assoc] at rest
  obtain ⟨q, first⟩ := qualified_operand_run (n := n + 3) type trait free (by omega) (by omega) rest
    clear
  obtain ⟨q', more⟩ := trailers_call_run (n := n + 2) (c := { c with
    rest := inParens (commaSeparated args) ++ us, row := .node .pathExpr [q] :: c.row })
    each (by omega) rfl ends rfl clear
  refine ⟨_, ⟨_, by decide, rfl⟩, unary_run (fun m mem => ?_) first more⟩
  rw [rest]
  simp only [prefixMarks, List.mem_cons, List.not_mem_nil, or_false] at mem
  rcases mem with rfl | rfl | rfl | rfl | rfl
  all_goals rfl

end FormulaBinding.Grammar
