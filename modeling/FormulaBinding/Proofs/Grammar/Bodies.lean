import FormulaBinding.Proofs.Grammar.Assembly

/-!
# Reading bodies

A body of a function that consists of `let` statements and calls of functions, of which the last
gives back the value, is read statement by statement.
-/

namespace FormulaBinding.Grammar
open FormulaBinding.Parser FormulaBinding.Token FormulaBinding.Lexer

variable {read : Reader} {n : Nat} {c : Cursor} {us body P : List Token} {w : String}

/-! ## Bindings -/

/-- Whether tokens are read as a pattern in front of an equality sign. -/
def ReadsPattern (ts : List Token) : Prop :=
  ∀ (read : Reader) {c : Cursor} {us : List Token},
    c.rest = ts ++ .mark '=' false Extent.nowhere :: us → ∃ q, pattern read c =
      .ok ((), { c with rest := .mark '=' false Extent.nowhere :: us, row := q :: c.row })

theorem readsPattern_discard : ReadsPattern (ident "_") := by
  intro read c us rest
  rcases c with ⟨_, inside, leftover, row⟩
  cases rest
  exact ⟨.node .pattern [.token (.name "_" Extent.nowhere)], rfl⟩

theorem readsPattern_word (free : w ∉ reservedWords) : ReadsPattern (ident w) := by
  intro read c us rest
  have rest : c.rest = .name w Extent.nowhere :: .mark '=' false Extent.nowhere :: us := rest
  exact ⟨_, pattern_word_run (.inr rfl) rest free⟩

theorem readsPattern_mutable (free : w ∉ reservedWords) :
    ReadsPattern (ident "mut" ++ ident w) := by
  intro read c us rest
  have rest : c.rest = .name "mut" Extent.nowhere :: .name w Extent.nowhere ::
    .mark '=' false Extent.nowhere :: us := rest
  rcases c with ⟨_, inside, leftover, row⟩
  cases rest
  have self : Ahead.word "self" (.name w Extent.nowhere :: .mark '=' false Extent.nowhere :: us) =
      false := ahead_word_of_reserved free (by decide)
  refine ⟨.node .namePattern [.token (.name "mut" Extent.nowhere),
    .token (.name w Extent.nowhere)], run_bind_eq_ok.mpr ⟨false, _, rfl, ?_⟩⟩
  simp only [Bool.false_eq_true, if_false]
  refine run_bind_eq_ok.mpr ⟨false, _, rfl, run_bind_eq_ok.mpr ⟨false, _, rfl, ?_⟩⟩
  simp only [Bool.false_eq_true, if_false]
  refine run_bind_eq_ok.mpr ⟨false, _, rfl, run_bind_eq_ok.mpr ⟨false, _, rfl,
    run_bind_eq_ok.mpr ⟨false, _, rfl, ?_⟩⟩⟩
  simp only [Bool.or_self, Bool.false_eq_true, if_false]
  refine run_bind_eq_ok.mpr ⟨true, _, rfl, run_bind_eq_ok.mpr ⟨false, _, rfl, ?_⟩⟩
  simp only [Bool.true_or, if_true]
  refine node_eq_ok.mpr ⟨⟨.mark '=' false Extent.nowhere :: us, inside, leftover,
    [.token (.name w Extent.nowhere), .token (.name "mut" Extent.nowhere)]⟩, ?_, rfl⟩
  refine run_bind_eq_ok.mpr ⟨(), _, discard_eq_ok.mpr ⟨false, rfl⟩, ?_⟩
  refine run_bind_eq_ok.mpr ⟨(), ⟨.name w Extent.nowhere :: .mark '=' false Extent.nowhere :: us,
    inside, leftover, [.token (.name "mut" Extent.nowhere)]⟩, discard_eq_ok.mpr ⟨true, rfl⟩, ?_⟩
  refine run_bind_eq_ok.mpr ⟨_, _, peek_run _, ?_⟩
  simp only [self, Bool.false_eq_true, if_false]
  refine run_bind_eq_ok.mpr ⟨(), _, name_run rfl free, ?_⟩
  rfl

/-- Whether tokens are read as a statement that nothing has to separate from the next one. -/
structure ReadsStatement (ts : List Token) : Prop where
  some : ts ≠ []
  plain : ∀ us, Ahead.mark ";" (ts ++ us) = false ∧ Ahead.mark "#" (ts ++ us) = false
  run : ∀ n > depth ts, ∀ {c : Cursor} {us : List Token}, c.rest = ts ++ us → c.leftover = none →
    ∃ q, statement (reader n) c = .ok (false, { c with rest := us, row := q :: c.row })

theorem readsStatement_let {left right : List Token} (pattern : ReadsPattern left)
    (value : ReadsExpr right) :
    ReadsStatement (ident "let" ++ left ++ op "=" ++ right ++ op ";") := by
  refine ⟨by simp [ident], fun us => ⟨rfl, rfl⟩, fun n enough c us rest clear => ?_⟩
  have smaller : sizeList right + 1 ≤
      sizeList (ident "let" ++ left ++ op "=" ++ right ++ op ";") := by
    simp only [sizeList_append]
    exact (Nat.add_le_add_left (Nat.le_refl 1) _).trans
      (Nat.add_le_add_right (Nat.le_add_left _ _) _)
  obtain ⟨n, rfl, fits⟩ : ∃ m, n = m + 2 ∧ depth right ≤ m := by
    rw [gt_iff_lt, depth] at enough
    exact ⟨n - 2, by omega, by rw [depth]; omega⟩
  have rest : c.rest = .name "let" Extent.nowhere :: (left ++ .mark '=' false Extent.nowhere ::
      (right ++ .mark ';' false Extent.nowhere :: us)) := by
    rw [rest]
    simp [op, markList, ident]
  rcases c with ⟨_, inside, leftover, row⟩
  cases rest
  cases clear
  obtain ⟨p, bound⟩ := pattern (reader (n + 1)) (c := ⟨left ++
    .mark '=' false Extent.nowhere :: (right ++ .mark ';' false Extent.nowhere :: us), inside, none,
    [.token (.name "let" Extent.nowhere)]⟩) rfl
  obtain ⟨q, assigned⟩ := value.expr_run (n := n) fits (.semicolon Extent.nowhere us) (c := ⟨
    right ++ .mark ';' false Extent.nowhere :: us, inside, none, []⟩) rfl rfl
  refine ⟨.node .letStatement [.token (.name "let" Extent.nowhere), p, .node .initializer
    [.token (.mark '=' false Extent.nowhere), q], .token (.mark ';' false Extent.nowhere)], ?_⟩
  refine run_bind_eq_ok.mpr ⟨_, _, rfl, run_bind_eq_ok.mpr ⟨((), []), _, rfl, ?_⟩⟩
  refine run_bind_eq_ok.mpr ⟨.neither, _, rfl, run_bind_eq_ok.mpr ⟨_, _, rfl, ?_⟩⟩
  have isLet : Ahead.word "let" (.name "let" Extent.nowhere :: (left ++ .mark '=' false
    Extent.nowhere :: (right ++ .mark ';' false Extent.nowhere :: us))) = true := rfl
  have noMacro : (MacroUse.neither == MacroUse.statement) = false := rfl
  simp only [isLet, noMacro, Bool.false_eq_true, if_false, if_true]
  refine run_bind_eq_ok.mpr ⟨(), _, node_eq_ok.mpr ⟨⟨us, inside, none,
    [.token (.mark ';' false Extent.nowhere), .node .initializer
      [.token (.mark '=' false Extent.nowhere), q], p, .token (.name "let" Extent.nowhere)]⟩, ?_,
    rfl⟩, rfl⟩
  refine run_bind_eq_ok.mpr ⟨_, _, rfl, run_bind_eq_ok.mpr ⟨_, _, rfl, ?_⟩⟩
  refine run_bind_eq_ok.mpr ⟨_, _, bound, run_bind_eq_ok.mpr ⟨false, _, rfl, ?_⟩⟩
  simp only [Bool.false_eq_true, if_false]
  refine run_bind_eq_ok.mpr ⟨true, _, rfl, ?_⟩
  simp only [if_true]
  refine run_bind_eq_ok.mpr ⟨(), _, node_eq_ok.mpr ⟨⟨.mark ';' false Extent.nowhere :: us, inside,
    none, [q, .token (.mark '=' false Extent.nowhere)]⟩, ?_, rfl⟩, rfl⟩
  refine run_bind_eq_ok.mpr ⟨_, _, rfl, run_bind_eq_ok.mpr ⟨((), [q]), _,
    collect_eq_ok.mpr ⟨_, assigned, rfl, rfl⟩, ?_⟩⟩
  refine run_bind_eq_ok.mpr ⟨_, _, rfl, run_bind_eq_ok.mpr ⟨false, _, rfl, ?_⟩⟩
  simp only [Bool.and_false, Bool.false_eq_true, if_false]
  rfl

/-! ## Statements -/

/-- Whether a word is ahead that a simple path may consist of. -/
def simpleStart (ts : List Token) : Bool :=
  Ahead.name ts || Ahead.oneOf ["super", "self", "Self", "crate"] ts

/-- Reads one word of a simple path and the double colon behind it. -/
def simpleStep : Parser Bool := do
  if !(← peek simpleStart) then expected ["path segment after `::`"]
  node .segment anyName
  mark? "::"

theorem simpleStep_eq_ok {t : Bool} {d : Cursor} (h : simpleStep c = .ok (t, d)) :
    ∃ w e ts, c.rest = .name w e :: ts ∧ (t = true ∧ (∃ e j e', ts =
      .mark ':' true e :: .mark ':' j e' :: d.rest) ∨ t = false ∧
        Ahead.mark "::" ts = false ∧ d.rest = ts) := by
  obtain ⟨_, _, peeked, h⟩ := run_bind_eq_ok.mp h
  cases peeked
  split at h
  · cases h
  obtain ⟨_, _, named, h⟩ := run_bind_eq_ok.mp h
  obtain ⟨x, word, rfl⟩ := node_eq_ok.mp named
  obtain ⟨w, e, ts, rest, rfl⟩ := anyName_eq_ok.mp word
  refine ⟨w, e, ts, rest, ?_⟩
  rcases rest_of_colons? h with ⟨rfl, e', j, e'', colons⟩ | ⟨rfl, none, rfl⟩
  · exact .inl ⟨rfl, e', j, e'', colons⟩
  · exact .inr ⟨rfl, none, rfl⟩

theorem rest_ne_cons_of_simpleStep {m : Nat} {d : Cursor} {u : Unit} {x : Char} {j : Bool}
    {e : Extent} {ts : List Token} (some : 0 < m) (rest : c.rest = .mark x j e :: ts) :
    repeatUpTo simpleStep m c ≠ .ok (u, d) := by
  intro h
  obtain ⟨m, rfl⟩ := Nat.exists_eq_succ_of_ne_zero (Nat.ne_zero_of_lt some)
  obtain ⟨t, y, step, -⟩ := run_bind_eq_ok.mp h
  obtain ⟨w, e', ts', rest', -⟩ := simpleStep_eq_ok step
  cases rest.symm.trans rest'

theorem rest_of_segment {x y : Cursor} (h : segment read true x = .ok ((), y)) :
    ∃ w e ts, x.rest = .name w e :: ts ∧ (y.rest = ts ∨ ∃ e j e' j' e'' us,
      ts = .mark ':' true e :: .mark ':' j e' :: .mark '<' j' e'' :: us) := by
  obtain ⟨w, e, ts, f, rest, rfl, ⟨-, rfl⟩ | ⟨-, -, run⟩⟩ := segment_eq_ok.mp h
  · exact ⟨w, e, ts, rest, .inl rfl⟩
  obtain ⟨-, rfl⟩ | ⟨ahead, -⟩ := furtherArguments_eq_ok.mp run
  · exact ⟨w, e, ts, rest, .inl rfl⟩
  simp only [argumentsAhead, Bool.not_true, Bool.false_and, Bool.false_or,
    Bool.and_eq_true] at ahead
  obtain ⟨e', j, e'', us, rfl⟩ := ahead_colons_eq_true.mp ahead.1
  obtain ⟨j', e₃, vs, less⟩ := (ahead_mark_eq_true '<' rfl).mp ahead.2
  have less : us = .mark '<' j' e₃ :: vs := less
  exact ⟨w, e, _, rest, .inr ⟨e', j, e'', j', e₃, vs, by rw [less]⟩⟩

theorem rest_of_repeat {i : Nat} {y z : Cursor}
    (h : repeatUpTo (furtherSegment read true) i y = .ok ((), z)) (atEnd : z.rest = []) :
    y.rest = [] ∨ ∃ l e j e' x y', i = l + 1 ∧
      y.rest = .mark ':' true e :: .mark ':' j e' :: x.rest ∧
      segment read true x = .ok ((), y') ∧
      repeatUpTo (furtherSegment read true) l y' = .ok ((), z) := by
  cases i with
  | zero =>
    cases h
    exact .inl atEnd
  | succ l =>
    obtain ⟨t, y', once, run⟩ := run_bind_eq_ok.mp h
    rcases furtherSegment_eq_ok.mp once with ⟨rfl, linked⟩ | ⟨rfl, -, rfl⟩
    · obtain ⟨e, j, e', ts, rest, first⟩ := link_eq_ok.mp linked
      exact .inr ⟨l, e, j, e', { y with rest := ts, row := _ }, y', rfl, rest, first, run⟩
    · cases run
      exact .inl atEnd

/-- The words of a path are all that is read of it as a simple path, if it is read as one: it has no
arguments then. -/
theorem rest_of_simpleStep {i m : Nat} {x y z d : Cursor} {u : Unit}
    (first : segment read true x = .ok ((), y))
    (more : repeatUpTo (furtherSegment read true) i y = .ok ((), z)) (atEnd : z.rest = [])
    (ends : Ahead.mark "::" us = false) (rest : c.rest = x.rest ++ us)
    (enough : c.rest.length < m) (h : repeatUpTo simpleStep m c = .ok (u, d)) : d.rest = us := by
  induction m generalizing i x y c with
  | zero => exact absurd enough (Nat.not_lt_zero _)
  | succ m ih =>
    obtain ⟨w, e, ts, start, behind⟩ := rest_of_segment first
    obtain ⟨t, c', step, loop⟩ := run_bind_eq_ok.mp h
    obtain ⟨w', e', ts', start', outcome⟩ := simpleStep_eq_ok step
    rw [start] at rest
    have begins : Token.name w e :: (ts ++ us) = .name w' e' :: ts' := rest.symm.trans start'
    injection begins with _ begins
    subst begins
    rcases outcome with ⟨rfl, e₁, j, e₂, colons⟩ | ⟨rfl, none, last⟩
    · have fewer : c'.rest.length < m := by
        have same := congrArg List.length colons
        rw [rest] at enough
        simp only [List.cons_append, List.length_cons, List.length_append] at same enough
        omega
      rcases behind with same | ⟨e₃, j', e₄, j₂, e₅, vs, rfl⟩
      · rcases rest_of_repeat more atEnd with none | ⟨l, e₃, j', e₄, x', y', rfl, goes, next, later⟩
        · rw [← same, none, List.nil_append] at colons
          rw [colons] at ends
          cases ends
        · rw [← same, goes] at colons
          simp only [List.cons_append, List.cons.injEq] at colons
          exact ih next later colons.2.2.symm fewer loop
      · injection colons with _ colons
        injection colons with _ colons
        exact absurd loop (rest_ne_cons_of_simpleStep (by omega) colons.symm)
    · cases loop
      rcases behind with same | ⟨e₃, j', e₄, j₂, e₅, vs, rfl⟩
      · rcases rest_of_repeat more atEnd with none' | ⟨l, e₃, j', e₄, x', y', rfl, goes, -⟩
        · rw [last, ← same, none', List.nil_append]
        · rw [← same, goes] at none
          cases none
      · cases none

/-- Reads a simple path behind its first double colon. -/
def simpleRest : Parser Unit := do
  if !(← peek simpleStart) then Parser.name
  repeatWhile simpleStep

theorem simplePath_eq : simplePath = node .simplePath (discard (mark? "::") >>= fun _ =>
    simpleRest) := rfl

theorem IsPath.rest_of_simplePath (h : IsPath true P) (ends : Ahead.mark "::" us = false)
    {d : Cursor} {u : Unit} (rest : c.rest = P ++ us) (run : simplePath c = .ok (u, d)) :
    d.rest = us := by
  obtain ⟨z, parts, atEnd, -⟩ := isPath_iff.mp h
  obtain ⟨y, first, more⟩ := pathParts_eq_ok.mp parts
  rw [simplePath_eq] at run
  obtain ⟨f, inner, rfl⟩ := node_eq_ok.mp run
  obtain ⟨_, x, root, behind⟩ := run_bind_eq_ok.mp inner
  obtain ⟨t, root⟩ := discard_eq_ok.mp root
  -- Where the words begin, whether or not a double colon is in front of them.
  have words : ∃ s, segment (reader (depth P)) true s = .ok ((), y) ∧ x.rest = s.rest ++ us := by
    rcases first with first | first
    · obtain ⟨e, j, e', ts, colons, first⟩ := link_eq_ok.mp first
      refine ⟨_, first, ?_⟩
      have colons : P = .mark ':' true e :: .mark ':' j e' :: ts := colons
      rw [colons] at rest
      rcases rest_of_colons? root with ⟨-, e₁, j₁, e₂, begins⟩ | ⟨-, none, -⟩
      · have same := rest.symm.trans begins
        simp only [List.cons_append, List.cons.injEq] at same
        exact same.2.2.symm
      · rw [show Cursor.rest _ = _ from rest] at none
        cases none
    · refine ⟨_, first, ?_⟩
      obtain ⟨w, e, ts, start, -⟩ := rest_of_segment first
      have start : P = .name w e :: ts := start
      rw [start] at rest
      rcases rest_of_colons? root with ⟨-, e₁, j₁, e₂, begins⟩ | ⟨-, -, rfl⟩
      · cases rest.symm.trans begins
      · rw [start]
        exact rest
  obtain ⟨s, first, begins⟩ := words
  obtain ⟨_, _, peeked, loop⟩ := run_bind_eq_ok.mp behind
  cases peeked
  split at loop
  · rename_i none
    obtain ⟨_, g, named, -⟩ := run_bind_eq_ok.mp loop
    obtain ⟨w, e, ts, here, free, -⟩ := name_eq_ok.mp named
    rw [here] at none
    have ahead : Ahead.name (.name w e :: ts) = true := ahead_name free
    simp [simpleStart, ahead] at none
  · exact rest_of_simpleStep first more atEnd ends begins (Nat.lt_succ_self _) (d := f) loop

theorem IsPath.macroUse_run (h : IsPath true P) (rest : c.rest = P ++ (inParens body ++ us))
    (clear : c.leftover = none) : macroUse c = .ok (.neither, c) := by
  rcases c with ⟨start, inside, leftover, row⟩
  cases clear
  cases rest
  let found : Parser (List Token) := do
    discard (collect simplePath)
    ahead
  let c : Cursor := ⟨P ++ (inParens body ++ us), inside, none, row⟩
  cases run : found c with
  | error e =>
    have tried : attempt (foresee found) c = .ok (none, c) := by
      have failed : found { c with leftover := none } = .error e := run
      simp only [attempt, foresee, failed]
    exact run_bind_eq_ok.mpr ⟨_, _, tried, rfl⟩
  | ok x =>
    obtain ⟨ts, d⟩ := x
    obtain ⟨_, f, discarded, looked⟩ := run_bind_eq_ok.mp run
    cases looked
    obtain ⟨⟨_, qs⟩, collected⟩ := discard_eq_ok.mp discarded
    obtain ⟨g, path, -, rfl⟩ := collect_eq_ok.mp collected
    have behind : g.rest = inParens body ++ us :=
      h.rest_of_simplePath (c := { c with row := [] }) rfl rfl path
    have tried : attempt (foresee found) c = .ok (some (inParens body ++ us), c) := by
      have ended : found { c with leftover := none } = .ok (inParens body ++ us, _) :=
        behind ▸ run
      simp only [attempt, foresee, ended]
      rfl
    exact run_bind_eq_ok.mpr ⟨_, _, tried, rfl⟩

theorem length_lt_concat (P : List Token) (w : String) :
    1 < (P ++ (op "::" ++ ident w)).length := by
  have three : (op "::" ++ ident w).length = 3 := rfl
  rw [List.length_append, three]
  omega

theorem IsPath.isOperand_concat (h : IsPath true P) (free : w ∉ reservedWords) :
    IsOperand (P ++ (op "::" ++ ident w)) where
  isPath := h.concat free _ _ _
  alone e same := by
    have long := length_lt_concat P w
    rw [same] at long
    exact absurd long (Nat.lt_irrefl 1)

/-- A path of several words starts no declaration. -/
theorem IsPath.itemAhead_eq (h : IsPath true P) (long : 1 < P.length) :
    itemAhead (P ++ us) = false := by
  have head := h.hasHead
  have words : Ahead.oneOf ["pub", "extern", "use", "fn", "mod", "type", "struct", "enum", "trait",
      "impl", "macro"] (P ++ us) = false := head.ahead_oneOf (by decide)
  have noWord {v : String} (reserved : v ∈ reservedWords) (other : v ∉ headWords) :
      Ahead.word v (P ++ us) = false := head.ahead_word reserved other
  have static := noWord (v := "static") (by decide) (by decide)
  have const := noWord (v := "const") (by decide) (by decide)
  have safe := noWord (v := "unsafe") (by decide) (by decide)
  have async := noWord (v := "async") (by decide) (by decide)
  generalize same : P = Q at *
  cases h.starts with
  | word => exact absurd long (Nat.lt_irrefl 1)
  | segments w e e' e'' j ts =>
    have colons : Ahead.mark "::" (.mark ':' true e' :: .mark ':' j e'' :: (ts ++ us)) = true := rfl
    have name (ts : List Token) : Ahead.name (.mark ':' true e' :: ts) = false := rfl
    have oneOf (xs : List String) (ts : List Token) :
        Ahead.oneOf xs (.mark ':' true e' :: ts) = false := rfl
    have word (x : String) (ts : List Token) : Ahead.word x (.mark ':' true e' :: ts) = false := rfl
    simp only [List.cons_append] at words static const safe async ⊢
    simp only [itemAhead, words, static, const, safe, async, List.drop_succ_cons, List.drop_zero,
      colons, name, oneOf, word, Bool.not_true, Bool.false_and, Bool.and_false, Bool.or_self]
  | arguments _ _ _ _ _ _ type => cases type
  | root => rfl

theorem notMem_blockKinds {q : Phrase} (simple : ∃ l ∈ simpleKinds, q.kind? = some l) :
    (q.kind?.any blockKinds.contains) = false ∧ q.is .macroExpr = false := by
  obtain ⟨l, mem, kind⟩ := simple
  rw [Phrase.is, kind]
  simp only [simpleKinds, List.mem_cons, List.not_mem_nil, or_false] at mem
  rcases mem with rfl | rfl | rfl | rfl <;> exact ⟨rfl, rfl⟩

theorem prepend_nil_run (c : Cursor) : prepend [] c = .ok ((), c) := by
  rcases c with ⟨_, inside, leftover, row⟩
  rcases row with _ | ⟨_ | _ | _, _⟩ <;> rfl

/-- An operand with a path that ends a statement is read as it is read elsewhere. -/
theorem IsOperand.early_run (h : IsOperand P) (rest : c.rest = P ++ us) {q : Phrase} {d : Cursor}
    (run : unary read true c = .ok ((), d)) (last : d.row = q :: c.row)
    (simple : ∃ l ∈ simpleKinds, q.kind? = some l) (noBrace : Ahead.group .brace us = false)
    (ends : EndsExpr d.rest) : early read c = .ok ((), d) := by
  have head := h.isPath.hasHead
  have noWord {x : String} (reserved : x ∈ reservedWords) (other : x ∉ headWords) :
      Ahead.word x (P ++ us) = false := head.ahead_word reserved other
  have brace : Ahead.group .brace ((P ++ us).drop 1) = false :=
    head.test_second noBrace (by simp [Ahead.group])
  have attributes : collect (outerAttributes read) c = .ok (((), []), c) :=
    collect_eq_ok.mpr ⟨_, outerAttributes_run (by rw [rest]; exact head.marks "#" (by decide)), rfl,
      rfl⟩
  have kind : (d.row.head?.bind Phrase.kind?).any blockKinds.contains = false := by
    rw [last]
    exact (notMem_blockKinds simple).1
  rw [early, run_bind_of_ok attributes]
  refine run_bind_eq_ok.mpr ⟨_, _, rfl, ?_⟩
  simp only [rest, noWord (x := "if") (by decide) (by decide),
    noWord (x := "match") (by decide) (by decide), brace,
    noWord (x := "unsafe") (by decide) (by decide), noWord (x := "const") (by decide) (by decide),
    noWord (x := "while") (by decide) (by decide), noWord (x := "loop") (by decide) (by decide),
    noWord (x := "for") (by decide) (by decide), head.ahead_lifetime, head.ahead_group,
    Bool.false_and, Bool.and_false,
    Bool.or_self, Bool.false_eq_true, if_false]
  refine run_bind_eq_ok.mpr ⟨_, _, run, ?_⟩
  refine run_bind_eq_ok.mpr ⟨_, _, rfl, ?_⟩
  simp only [kind]
  refine run_bind_eq_ok.mpr ⟨_, _, rfl, run_bind_eq_ok.mpr ⟨_, _, rfl,
    run_bind_eq_ok.mpr ⟨_, _, rfl, ?_⟩⟩⟩
  simp only [Bool.false_and, Bool.false_eq_true, if_false, Bool.not_false, Bool.true_or, if_true]
  rw [run_bind_of_ok (prepend_nil_run d)]
  exact ends.operators_run true .jump

theorem expressionStatement_run {q : Phrase} (run : reader n .early { c with row := [] } =
      .ok ((), { c with rest := .mark ';' false Extent.nowhere :: us, row := [q] }))
    (simple : ∃ l ∈ simpleKinds, q.kind? = some l) :
    ∃ q', expressionStatement (reader n) [] c =
      .ok (false, { c with rest := us, row := q' :: c.row }) := by
  obtain ⟨block, noMacro⟩ := notMem_blockKinds simple
  refine ⟨.node .expressionStatement [withAttributes [] q, .token (.mark ';' false Extent.nowhere)],
    run_bind_eq_ok.mpr ⟨((), [q]), _, collect_eq_ok.mpr ⟨_, run, rfl, rfl⟩, ?_⟩⟩
  refine run_bind_eq_ok.mpr ⟨true, _, rfl, ?_⟩
  simp only [List.any_cons, List.any_nil, block, noMacro, Bool.or_self, Bool.false_and,
    Bool.false_eq_true, if_false, Bool.not_true]
  rfl

theorem expressionStatement_last_run {q : Phrase} (run : reader n .early { c with row := [] } =
      .ok ((), { c with rest := [], row := [q] }))
    (simple : ∃ l ∈ simpleKinds, q.kind? = some l) :
    ∃ q', expressionStatement (reader n) [] c =
      .ok (true, { c with rest := [], row := q' :: c.row }) := by
  obtain ⟨block, noMacro⟩ := notMem_blockKinds simple
  refine ⟨.node .expressionStatement [withAttributes [] q],
    run_bind_eq_ok.mpr ⟨((), [q]), _, collect_eq_ok.mpr ⟨_, run, rfl, rfl⟩, ?_⟩⟩
  refine run_bind_eq_ok.mpr ⟨false, _, rfl, ?_⟩
  simp only [List.any_cons, List.any_nil, block, noMacro, Bool.or_self, Bool.false_and,
    Bool.false_eq_true, if_false, Bool.not_false, Bool.and_self]
  rfl

theorem IsPath.statement_run (h : IsPath true P) (long : 1 < P.length) {b : Bool} {d : Cursor}
    (rest : c.rest = P ++ (inParens body ++ us)) (clear : c.leftover = none)
    (run : expressionStatement read [] c = .ok (b, d)) : statement read c = .ok (b, d) := by
  have head := h.hasHead
  have attributes : collect (outerAttributes read) c = .ok (((), []), c) :=
    collect_eq_ok.mpr ⟨_, outerAttributes_run (by rw [rest]; exact head.marks "#" (by decide)), rfl,
      rfl⟩
  have noItem : itemAhead c.rest = false := by
    rw [rest]
    exact h.itemAhead_eq long
  have noLet : Ahead.word "let" c.rest = false := by
    rw [rest]
    exact head.ahead_word (by decide) (by decide)
  refine run_bind_eq_ok.mpr ⟨_, _, rfl, ?_⟩
  rw [run_bind_of_ok attributes]
  refine run_bind_eq_ok.mpr ⟨_, _, h.macroUse_run rest clear, ?_⟩
  refine run_bind_eq_ok.mpr ⟨_, _, rfl, ?_⟩
  have neither : (MacroUse.neither == MacroUse.statement) = false ∧
    (MacroUse.neither == MacroUse.item) = false := ⟨rfl, rfl⟩
  simp only [noItem, noLet, neither, Bool.or_self, Bool.false_eq_true, if_false]
  exact run

/-- Whether tokens are read as the last statement of a function, which gives back its value. -/
structure ReadsLast (ts : List Token) : Prop where
  some : ts ≠ []
  plain : Ahead.mark ";" ts = false ∧ Ahead.mark "#" ts = false
  run : ∀ n > depth ts, ∀ {c : Cursor}, c.rest = ts → c.leftover = none →
    ∃ q, statement (reader n) c = .ok (true, { c with rest := [], row := q :: c.row })

theorem readsStatement_call (h : IsOperand P) (long : 1 < P.length) {args : List (List Token)}
    (each : ∀ ts ∈ args, ReadsExpr ts) :
    ReadsStatement (P ++ inParens (commaSeparated args) ++ op ";") := by
  have head := h.isPath.hasHead
  refine ⟨by simp [head.ne_nil], fun us => ?_, fun n enough c us rest clear => ?_⟩
  · simp only [List.append_assoc]
    exact ⟨head.ahead_mark rfl (by decide), head.ahead_mark rfl (by decide)⟩
  obtain ⟨n, rfl, fits⟩ : ∃ m, n = m + 1 ∧ depth (P ++ inParens (commaSeparated args)) ≤ m := by
    rw [gt_iff_lt, depth, sizeList_append] at enough
    exact ⟨n - 1, by omega, by rw [depth]; omega⟩
  have rest : c.rest = P ++ (inParens (commaSeparated args) ++
      .mark ';' false Extent.nowhere :: us) := by
    rw [rest]
    simp [op, markList]
  obtain ⟨q, simple, run⟩ := (h.readsExpr_call each).2 n fits
    (.semicolon Extent.nowhere us) (c := { c with row := [] })
    (by rw [List.append_assoc]; exact rest) clear
  have early : reader (n + 1) .early { c with row := [] } = _ :=
    h.early_run (c := { c with row := [] })
      (d := { c with rest := .mark ';' false Extent.nowhere :: us, row := [q] }) rest run rfl simple
      rfl (.semicolon _ _)
  obtain ⟨q', statement⟩ := expressionStatement_run early simple
  exact ⟨q', h.isPath.statement_run long rest clear statement⟩

theorem readsLast_call (h : IsOperand P) (long : 1 < P.length) {args : List (List Token)}
    (each : ∀ ts ∈ args, ReadsExpr ts) :
    ReadsLast (P ++ inParens (commaSeparated args)) := by
  have head := h.isPath.hasHead
  refine ⟨by simp [head.ne_nil], ⟨head.ahead_mark rfl (by decide), head.ahead_mark rfl (by decide)⟩,
    fun n enough c rest clear => ?_⟩
  have rest' : c.rest = P ++ (inParens (commaSeparated args) ++ []) := by
    rw [rest, List.append_nil]
  obtain ⟨n, rfl, fits⟩ := exists_of_depth_lt enough
  obtain ⟨q, simple, run⟩ := (h.readsExpr_call each).2 n fits .nil
    (c := { c with row := [] }) (by rw [List.append_assoc]; exact rest') clear
  have early : reader (n + 1) .early { c with row := [] } = _ :=
    h.early_run (c := { c with row := [] }) (d := { c with rest := [], row := [q] }) rest' run
      rfl simple rfl .nil
  obtain ⟨q', statement⟩ := expressionStatement_last_run early simple
  exact ⟨q', h.isPath.statement_run long rest' clear statement⟩

def nanTokens : List Token := op "<" ++ ident "f64" ++ op ">" ++ op "::" ++ ident "NAN"

theorem unary_nan_run (rest : c.rest = nanTokens) : ∃ parts, unary (reader (n + 2)) true c =
    .ok ((), { c with rest := [], row := .node .pathExpr parts :: c.row }) := by
  rcases c with ⟨_, inside, leftover, row⟩
  cases rest
  exact ⟨_, rfl⟩

theorem early_nan_run (rest : c.rest = nanTokens) : ∃ parts, reader (n + 3) .early c =
    .ok ((), { c with rest := [], row := .node .pathExpr parts :: c.row }) := by
  obtain ⟨parts, run⟩ := unary_nan_run (n := n) rest
  rcases c with ⟨_, inside, leftover, row⟩
  cases rest
  refine ⟨parts, run_bind_eq_ok.mpr ⟨((), []), _, rfl, run_bind_eq_ok.mpr ⟨_, _, rfl, ?_⟩⟩⟩
  exact run_bind_eq_ok.mpr ⟨_, _, run, rfl⟩

theorem readsLast_nan : ReadsLast nanTokens := by
  refine ⟨List.cons_ne_nil _ _, ⟨rfl, rfl⟩, fun n enough c rest clear => ?_⟩
  obtain ⟨n, rfl⟩ : ∃ m, n = m + 3 := by
    rw [gt_iff_lt, depth] at enough
    exact ⟨n - 3, by omega⟩
  obtain ⟨parts, run⟩ := early_nan_run (n := n) (c := { c with row := [] }) rest
  obtain ⟨q, last⟩ := expressionStatement_last_run run ⟨_, by decide, rfl⟩
  rcases c with ⟨_, inside, leftover, row⟩
  cases rest
  cases clear
  refine ⟨q, run_bind_eq_ok.mpr ⟨_, _, rfl, run_bind_eq_ok.mpr ⟨((), []), _, rfl, ?_⟩⟩⟩
  refine run_bind_eq_ok.mpr ⟨.neither, _, rfl, run_bind_eq_ok.mpr ⟨_, _, rfl, ?_⟩⟩
  exact last

/-! ## Bodies -/

def statementStep (read : Reader) : Parser Bool := do
  repeatWhile do
    if ← peek (Ahead.mark ";") then
      node .emptyStatement (mark ";")
      return true
    else return false
  if ← atEnd then return false
  let separate ← statement read
  if ← atEnd then return false
  if separate then fail (.refused "unexpected token, expected `;`")
  return true

theorem noSemicolon_run (none : Ahead.mark ";" c.rest = false) : repeatWhile (do
    if ← peek (Ahead.mark ";") then
      node .emptyStatement (mark ";")
      return true
    else return false) c = .ok ((), c) := by
  refine run_bind_eq_ok.mpr ⟨_, _, rfl, run_bind_eq_ok.mpr ⟨false, c, ?_, rfl⟩⟩
  refine run_bind_eq_ok.mpr ⟨_, _, peek_run _, ?_⟩
  simp only [none, Bool.false_eq_true, if_false]
  rfl

/-- Statements are read one by one, up to the one that gives back the value. -/
theorem repeatUpTo_statementStep_run {m : Nat} {tss : List (List Token)} {last : List Token}
    (each : ∀ ts ∈ tss, ReadsStatement ts) (value : ReadsLast last)
    (enough : depth (tss.flatten ++ last) < n) (many : tss.length < m) (rest : c.rest = tss.flatten ++ last) (clear : c.leftover = none) :
    ∃ row, repeatUpTo (statementStep (reader n)) m c =
      .ok ((), { c with rest := [], row := row }) := by
  induction tss generalizing c m with
  | nil =>
    obtain ⟨m, rfl⟩ := Nat.exists_eq_succ_of_ne_zero (Nat.ne_zero_of_lt many)
    have rest : c.rest = last := rest
    obtain ⟨q, run⟩ := value.run n enough rest clear
    refine ⟨q :: c.row, run_bind_eq_ok.mpr ⟨false, { c with rest := [], row := q :: c.row }, ?_,
      rfl⟩⟩
    refine run_bind_eq_ok.mpr ⟨_, _, noSemicolon_run (rest ▸ value.plain.1), ?_⟩
    refine run_bind_eq_ok.mpr ⟨_, _, atEnd_run (rest ▸ value.some), ?_⟩
    simp only [Bool.false_eq_true, if_false]
    exact run_bind_eq_ok.mpr ⟨_, _, run, rfl⟩
  | cons ts tss ih =>
    obtain ⟨m, rfl⟩ := Nat.exists_eq_succ_of_ne_zero (Nat.ne_zero_of_lt many)
    have first := each ts List.mem_cons_self
    rw [List.flatten_cons, List.append_assoc] at rest enough
    have fits : depth ts < n ∧ depth (tss.flatten ++ last) < n := by
      rw [depth, sizeList_append] at enough
      simp only [depth]
      omega
    obtain ⟨q, run⟩ := first.run n fits.1 rest clear
    obtain ⟨row, later⟩ := ih (c := { c with rest := tss.flatten ++ last, row := q :: c.row })
      (fun ts mem => each ts (List.mem_cons_of_mem _ mem)) fits.2 (by simpa using many) rfl clear
    have more : tss.flatten ++ last ≠ [] := by simp [value.some]
    refine ⟨row, run_bind_eq_ok.mpr ⟨true, { c with
      rest := tss.flatten ++ last, row := q :: c.row }, ?_, later⟩⟩
    refine run_bind_eq_ok.mpr ⟨_, _, noSemicolon_run (by rw [rest]; exact (first.plain _).1), ?_⟩
    refine run_bind_eq_ok.mpr ⟨_, _, atEnd_run (by simp [rest, first.some]), ?_⟩
    simp only [Bool.false_eq_true, if_false]
    refine run_bind_eq_ok.mpr ⟨_, _, run, run_bind_eq_ok.mpr ⟨_, _, atEnd_run more, ?_⟩⟩
    simp only [Bool.false_eq_true, if_false]
    rfl

theorem bodyContent_run {tss : List (List Token)} {last : List Token}
    (each : ∀ ts ∈ tss, ReadsStatement ts) (value : ReadsLast last)
    (enough : depth (tss.flatten ++ last) < n) (rest : c.rest = tss.flatten ++ last) (clear : c.leftover = none) :
    ∃ row, bodyContent (reader (n + 1)) c = .ok ((), { c with rest := [], row := row }) := by
  have plain : Ahead.mark "#" c.rest = false := by
    rw [rest]
    cases tss with
    | nil => exact value.plain.2
    | cons ts tss =>
      rw [List.flatten_cons, List.append_assoc]
      exact ((each ts List.mem_cons_self).plain _).2
  have attributes := innerAttributes_run (reader (n + 1)) (c := c)
    (by simp only [plain, Bool.false_and])
  have many : tss.length < c.rest.length + 1 := by
    have length := length_le_length_flatten fun ts mem => (each ts mem).some
    rw [rest, List.length_append]
    omega
  obtain ⟨row, run⟩ := repeatUpTo_statementStep_run each value enough many rest clear
  exact ⟨row, run_bind_eq_ok.mpr ⟨_, _, attributes, run_bind_eq_ok.mpr ⟨_, _, rfl, run⟩⟩⟩

end FormulaBinding.Grammar
