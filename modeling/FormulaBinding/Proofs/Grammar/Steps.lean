import FormulaBinding.Grammar.Entry
import FormulaBinding.Proofs.Success

/-!
# What a parser does step by step

A parser that succeeds is taken apart into the parsers that it consists of. A relation between the
tokens ahead before and after holds of a whole rule where it holds of each step.
-/

namespace FormulaBinding.Parser

variable {α β : Type} {a : α} {b : β} {c d : Cursor} {p : Parser α} {k : Kind}

theorem pure_eq_ok {x : α} : (pure x : Parser α) c = .ok (a, d) ↔ x = a ∧ c = d := by
  constructor
  · intro h
    cases h
    exact ⟨rfl, rfl⟩
  · rintro ⟨rfl, rfl⟩
    rfl

theorem run_bind_eq_ok {f : α → Parser β} :
    (p >>= f) c = .ok (b, d) ↔ ∃ a e, p c = .ok (a, e) ∧ f a e = .ok (b, d) := by
  refine bind_eq_ok.trans ⟨?_, ?_⟩
  · rintro ⟨⟨a, e⟩, h⟩
    exact ⟨a, e, h⟩
  · rintro ⟨a, e, h⟩
    exact ⟨⟨a, e⟩, h⟩

theorem run_bind_of_ok {f : α → Parser β} (h : p c = .ok (a, d)) : (p >>= f) c = f a d := by
  have run : (p >>= f) c = (p c >>= fun x => f x.1 x.2) := rfl
  rw [run, h]
  rfl

theorem map_eq_ok {f : α → β} :
    (f <$> p) c = .ok (b, d) ↔ ∃ a, p c = .ok (a, d) ∧ f a = b := by
  have run : (f <$> p) c = (p >>= fun a => pure (f a)) c := rfl
  rw [run, run_bind_eq_ok]
  constructor
  · rintro ⟨a, e, h, h'⟩
    cases h'
    exact ⟨a, h, rfl⟩
  · rintro ⟨a, h, rfl⟩
    exact ⟨a, d, h, rfl⟩

theorem collect_eq_ok {x : α × List Phrase} :
    collect p c = .ok (x, d) ↔ ∃ e, p { c with row := [] } = .ok (x.1, e) ∧
      x.2 = e.row.reverse ∧ d = { e with row := c.row } := by
  have run : collect p c = p { c with row := [] } >>= fun x =>
    .ok ((x.1, x.2.row.reverse), { x.2 with row := c.row }) := rfl
  rw [run, bind_eq_ok]
  constructor
  · rintro ⟨⟨a, e⟩, h, h'⟩
    cases h'
    exact ⟨e, h, rfl, rfl⟩
  · rintro ⟨e, h, hx, rfl⟩
    exact ⟨_, h, by rw [← hx]⟩

theorem node_eq_ok : node k p c = .ok (a, d) ↔ ∃ e, p { c with row := [] } = .ok (a, e) ∧
    d = { e with row := .node k e.row.reverse :: c.row } := by
  rw [node, run_bind_eq_ok]
  constructor
  · rintro ⟨⟨a', parts⟩, e, collected, h⟩
    obtain ⟨e, read, rfl, rfl⟩ := collect_eq_ok.mp collected
    cases h
    exact ⟨e, read, rfl⟩
  · rintro ⟨e, h, rfl⟩
    exact ⟨(a, e.row.reverse), _, collect_eq_ok.mpr ⟨e, h, rfl, rfl⟩, rfl⟩

/-- The content of a group is read with a row of its own. -/
theorem inGroup_eq_ok {delimiter : Delimiter} {missing : String} :
    inGroup delimiter missing p c = .ok (a, d) ↔ ∃ body o cl after content,
      c.rest = .group delimiter body o cl :: after ∧
      p { rest := body, inside := some (delimiter, cl), leftover := c.leftover } =
        .ok (a, content) ∧
      d = { c with
        rest := after
        leftover := content.leftover <|> content.leftoverError?
        row := .group delimiter content.row.reverse o cl :: c.row } := by
  rcases c with ⟨rest, inside, leftover, row⟩
  constructor
  · intro h
    obtain ⟨_, _, got, h⟩ := run_bind_eq_ok.mp h
    cases got
    rcases rest with _ | ⟨t, after⟩
    · cases h
    · cases t with
      | group e body o cl =>
        by_cases same : e = delimiter
        · subst same
          simp only [if_true] at h
          obtain ⟨_, _, entered, h⟩ := run_bind_eq_ok.mp h
          cases entered
          obtain ⟨a, content, read, h⟩ := run_bind_eq_ok.mp h
          cases h
          exact ⟨body, o, cl, after, content, rfl, read, rfl⟩
        · simp only [if_neg same] at h
          cases h
      | _ => cases h
  · rintro ⟨body, o, cl, after, content, rfl, h, rfl⟩
    refine run_bind_eq_ok.mpr ⟨_, _, rfl, ?_⟩
    simp only [if_true]
    exact run_bind_eq_ok.mpr ⟨_, _, rfl, run_bind_eq_ok.mpr ⟨a, content, h, rfl⟩⟩

/-! ## Single steps -/

theorem take_cons {t : Token} {ts : List Token} (h : c.rest = t :: ts) :
    take c = .ok ((), { c with rest := ts, row := .token t :: c.row }) := by
  rcases c with ⟨rest, inside, leftover, row⟩
  cases h
  rfl

theorem name_eq_ok {u : Unit} : name c = .ok (u, d) ↔ ∃ w e ts, c.rest = .name w e :: ts ∧
    w ∉ reservedWords ∧ d = { c with rest := ts, row := .token (.name w e) :: c.row } := by
  rcases c with ⟨rest, inside, leftover, row⟩
  constructor
  · intro h
    obtain ⟨_, _, got, h⟩ := run_bind_eq_ok.mp h
    cases got
    rcases rest with _ | ⟨t, ts⟩
    · cases h
    · cases t with
      | name w e =>
        by_cases reserved : reservedWords.contains w = true
        · simp only [reserved, if_true] at h
          cases h
        · simp only [reserved, Bool.false_eq_true, if_false] at h
          cases h
          exact ⟨w, e, ts, rfl, by simpa using reserved, rfl⟩
      | _ => cases h
  · rintro ⟨w, e, ts, rfl, free, rfl⟩
    have free : reservedWords.contains w = false := by simpa using free
    refine run_bind_eq_ok.mpr ⟨_, _, rfl, ?_⟩
    simp only [free, Bool.false_eq_true, if_false]
    rfl

theorem ahead_word_eq_true {w : String} {ts : List Token} :
    Ahead.word w ts = true ↔ ∃ e us, ts = .name w e :: us := by
  constructor
  · intro h
    rcases ts with _ | ⟨t, ts⟩
    · cases h
    · cases t with
      | name v e =>
        have same : v = w := by simpa [Ahead.word] using h
        exact ⟨e, ts, by rw [same]⟩
      | _ => cases h
  · rintro ⟨e, us, rfl⟩
    simp [Ahead.word]

theorem word?_eq_ok {w : String} {t : Bool} : word? w c = .ok (t, d) ↔
    (t = true ∧ ∃ e ts, c.rest = .name w e :: ts ∧
      d = { c with rest := ts, row := .token (.name w e) :: c.row }) ∨
    (t = false ∧ Ahead.word w c.rest = false ∧ d = c) := by
  rw [word?, run_bind_eq_ok]
  constructor
  · rintro ⟨seen, _, peeked, h⟩
    cases peeked
    cases seen : Ahead.word w c.rest with
    | true =>
      obtain ⟨e, ts, rest⟩ := ahead_word_eq_true.mp seen
      rw [seen, if_pos rfl, run_bind_eq_ok] at h
      obtain ⟨_, _, taken, h⟩ := h
      rw [take_cons rest] at taken
      cases taken
      cases h
      exact .inl ⟨rfl, e, ts, rest, rfl⟩
    | false =>
      rw [seen, if_neg Bool.false_ne_true] at h
      cases h
      exact .inr ⟨rfl, rfl, rfl⟩
  · rintro (⟨rfl, e, ts, rest, rfl⟩ | ⟨rfl, unseen, rfl⟩)
    · have seen := ahead_word_eq_true.mpr ⟨e, ts, rest⟩
      refine ⟨_, _, rfl, ?_⟩
      rw [seen, if_pos rfl]
      exact run_bind_eq_ok.mpr ⟨_, _, take_cons rest, rfl⟩
    · refine ⟨_, _, rfl, ?_⟩
      rw [unseen, if_neg Bool.false_ne_true]
      rfl

theorem word_eq_ok {w : String} {u : Unit} : word w c = .ok (u, d) ↔
    ∃ e ts, c.rest = .name w e :: ts ∧
      d = { c with rest := ts, row := .token (.name w e) :: c.row } := by
  rw [word, run_bind_eq_ok]
  constructor
  · rintro ⟨seen, _, peeked, h⟩
    cases peeked
    cases seen : Ahead.word w c.rest with
    | true =>
      obtain ⟨e, ts, rest⟩ := ahead_word_eq_true.mp seen
      rw [seen, if_pos rfl, take_cons rest] at h
      cases h
      exact ⟨e, ts, rest, rfl⟩
    | false =>
      rw [seen, if_neg Bool.false_ne_true] at h
      cases h
  · rintro ⟨e, ts, rest, rfl⟩
    have seen := ahead_word_eq_true.mpr ⟨e, ts, rest⟩
    refine ⟨_, _, rfl, ?_⟩
    rw [seen, if_pos rfl]
    exact take_cons rest

theorem anyName_eq_ok {u : Unit} : anyName c = .ok (u, d) ↔ ∃ w e ts, c.rest = .name w e :: ts ∧
    d = { c with rest := ts, row := .token (.name w e) :: c.row } := by
  rw [anyName, run_bind_eq_ok]
  constructor
  · rintro ⟨seen, _, peeked, h⟩
    cases peeked
    cases rest : c.rest with
    | nil =>
      rw [rest] at h
      cases h
    | cons t ts =>
      rw [rest] at h
      cases t with
      | name w e =>
        rw [if_pos (by rfl), take_cons rest] at h
        cases h
        exact ⟨w, e, ts, rfl, rfl⟩
      | _ => cases h
  · rintro ⟨w, e, ts, rest, rfl⟩
    refine ⟨_, _, rfl, ?_⟩
    rw [rest, if_pos (by rfl)]
    exact take_cons rest

theorem ahead_mark_eq_true {m : String} (x : Char) (single : m.toList = [x]) {ts : List Token} :
    Ahead.mark m ts = true ↔ ∃ joined e us, ts = .mark x joined e :: us := by
  rw [Ahead.mark, single]
  constructor
  · intro h
    rcases ts with _ | ⟨t, ts⟩
    · cases h
    · cases t with
      | mark y joined e =>
        have same : x = y := by simpa [Ahead.markChars] using h
        exact ⟨joined, e, ts, by rw [same]⟩
      | _ => cases h
  · rintro ⟨joined, e, us, rfl⟩
    simp [Ahead.markChars]

theorem takeMarks_one {x : Char} {joined : Bool} {e : Extent} {ts : List Token}
    (rest : c.rest = .mark x joined e :: ts) :
    takeMarks 1 c = .ok ((), { c with rest := ts, row := .token (.mark x false e) :: c.row }) := by
  rcases c with ⟨_, inside, leftover, row⟩
  cases rest
  rfl

theorem markChars_cons {x : Char} {cs : List Char} {ts : List Token}
    (h : Ahead.markChars (x :: cs) ts = true) :
    ∃ joined e us, ts = .mark x joined e :: us ∧ Ahead.markChars cs us = true := by
  rcases ts with _ | ⟨t, us⟩
  · cases cs <;> cases h
  · cases t with
    | mark y joined e =>
      cases cs with
      | nil =>
        have same : x = y := by simpa [Ahead.markChars] using h
        exact ⟨joined, e, us, by rw [same], rfl⟩
      | cons z cs =>
        simp only [Ahead.markChars, Bool.and_eq_true, beq_iff_eq] at h
        obtain ⟨⟨same, -⟩, others⟩ := h
        exact ⟨joined, e, us, by rw [same], others⟩
    | _ => cases cs <;> cases h

theorem takeMarks_succ {x : Char} {joined : Bool} {e : Extent} {ts : List Token} (n : Nat)
    (rest : c.rest = .mark x joined e :: ts) : takeMarks (n + 1) c =
      takeMarks n { c with rest := ts, row := .token (.mark x (n != 0) e) :: c.row } := by
  rcases c with ⟨_, inside, leftover, row⟩
  cases rest
  rfl

/-- An operator of one character is read whatever it is joined to. -/
theorem mark?_eq_ok {m : String} (x : Char) (single : m.toList = [x]) {t : Bool} :
    mark? m c = .ok (t, d) ↔
      (t = true ∧ ∃ joined e ts, c.rest = .mark x joined e :: ts ∧
        d = { c with rest := ts, row := .token (.mark x false e) :: c.row }) ∨
      (t = false ∧ Ahead.mark m c.rest = false ∧ d = c) := by
  have one : m.length = 1 := by rw [← String.length_toList, single]; rfl
  rw [mark?, run_bind_eq_ok, one]
  constructor
  · rintro ⟨seen, _, peeked, h⟩
    cases peeked
    cases seen : Ahead.mark m c.rest with
    | true =>
      obtain ⟨joined, e, ts, rest⟩ := (ahead_mark_eq_true x single).mp seen
      rw [seen, if_pos rfl, run_bind_eq_ok] at h
      obtain ⟨_, _, taken, h⟩ := h
      rw [takeMarks_one rest] at taken
      cases taken
      cases h
      exact .inl ⟨rfl, joined, e, ts, rest, rfl⟩
    | false =>
      rw [seen, if_neg Bool.false_ne_true] at h
      cases h
      exact .inr ⟨rfl, rfl, rfl⟩
  · rintro (⟨rfl, joined, e, ts, rest, rfl⟩ | ⟨rfl, unseen, rfl⟩)
    · have seen := (ahead_mark_eq_true x single).mpr ⟨joined, e, ts, rest⟩
      refine ⟨_, _, rfl, ?_⟩
      rw [seen, if_pos rfl]
      exact run_bind_eq_ok.mpr ⟨_, _, takeMarks_one rest, rfl⟩
    · refine ⟨_, _, rfl, ?_⟩
      rw [unseen, if_neg Bool.false_ne_true]
      rfl

theorem mark_eq_ok {m : String} (x : Char) (single : m.toList = [x]) {u : Unit} :
    mark m c = .ok (u, d) ↔ ∃ joined e ts, c.rest = .mark x joined e :: ts ∧
      d = { c with rest := ts, row := .token (.mark x false e) :: c.row } := by
  have one : m.length = 1 := by rw [← String.length_toList, single]; rfl
  rw [mark, run_bind_eq_ok, one]
  constructor
  · rintro ⟨seen, _, peeked, h⟩
    cases peeked
    cases seen : Ahead.mark m c.rest with
    | true =>
      obtain ⟨joined, e, ts, rest⟩ := (ahead_mark_eq_true x single).mp seen
      rw [seen, if_pos rfl, takeMarks_one rest] at h
      cases h
      exact ⟨joined, e, ts, rest, rfl⟩
    | false =>
      rw [seen, if_neg Bool.false_ne_true] at h
      cases h
  · rintro ⟨joined, e, ts, rest, rfl⟩
    have seen := (ahead_mark_eq_true x single).mpr ⟨joined, e, ts, rest⟩
    refine ⟨_, _, rfl, ?_⟩
    rw [seen, if_pos rfl]
    exact takeMarks_one rest

theorem mark?_eq_ok_false {m : String} (h : mark? m c = .ok (false, d)) : d = c := by
  obtain ⟨seen, _, peeked, h⟩ := run_bind_eq_ok.mp h
  cases peeked
  split at h
  · obtain ⟨_, _, -, h⟩ := run_bind_eq_ok.mp h
    cases h
  · cases h
    rfl

theorem forIn_emit_eq_ok {ps : List Phrase} {u : PUnit} :
    (forIn ps PUnit.unit fun q _ => do
      emit q
      pure (ForInStep.yield PUnit.unit) : Parser PUnit) c = .ok (u, d) ↔
      d = { c with row := ps.reverse ++ c.row } := by
  induction ps generalizing c with
  | nil =>
    rw [List.forIn_nil, pure_eq_ok]
    exact ⟨fun h => h.2.symm, fun h => ⟨rfl, h.symm⟩⟩
  | cons q qs ih =>
    rw [List.forIn_cons]
    refine (ih (c := { c with row := q :: c.row })).trans ?_
    rw [List.reverse_cons, List.append_assoc]
    rfl

theorem discard_eq_ok {u : PUnit} :
    (discard p : Parser PUnit) c = .ok (u, d) ↔ ∃ a, p c = .ok (a, d) := by
  rw [Functor.discard, Functor.mapConst]
  constructor
  · intro h
    obtain ⟨a, h, -⟩ := map_eq_ok.mp h
    exact ⟨a, h⟩
  · rintro ⟨a, h⟩
    exact map_eq_ok.mpr ⟨a, h, rfl⟩

/-! ## Whole texts -/

theorem leftoverError?_eq_none : c.leftoverError? = none ↔ c.rest = [] := by
  rcases c with ⟨_ | ⟨t, ts⟩, inside, leftover, row⟩
  · exact iff_of_true rfl rfl
  · exact iff_of_false nofun nofun

theorem orElse_eq_none {x y : Option α} : (x <|> y) = none ↔ x = none ∧ y = none := by
  cases x <;> simp

/-- A whole text is read where nothing is left of it or of a group in it. -/
theorem runAll_eq_ok {ts : List Token} {row : List Phrase} :
    runAll p ts = .ok (a, row) ↔ ∃ d, p { rest := ts } = .ok (a, d) ∧ d.rest = [] ∧
      d.leftover = none ∧ row = d.row.reverse := by
  rw [runAll, bind_eq_ok]
  constructor
  · rintro ⟨⟨a', d⟩, run, h⟩
    dsimp only at h
    split at h
    · cases h
    · rename_i whole
      obtain ⟨leftover, rest⟩ := orElse_eq_none.mp whole
      cases h
      exact ⟨d, run, leftoverError?_eq_none.mp rest, leftover, rfl⟩
  · rintro ⟨d, run, rest, leftover, rfl⟩
    refine ⟨(a, d), run, ?_⟩
    have whole : (d.leftover <|> d.leftoverError?) = none :=
      orElse_eq_none.mpr ⟨leftover, leftoverError?_eq_none.mpr rest⟩
    simp only [whole]
    rfl

/-! ## The tokens ahead -/

/-- A relation between the tokens ahead before and after a reading, which every group passes. -/
class Progress (R : List Token → List Token → Prop) : Prop where
  refl : ∀ ts, R ts ts
  trans : ∀ {ts us vs}, R ts us → R us vs → R ts vs
  group : ∀ d body o cl ts, R (.group d body o cl :: ts) ts

/-- Whether a parser that succeeds brings the tokens ahead into a relation. -/
class Advances (R : List Token → List Token → Prop) (p : Parser α) : Prop where
  rest : ∀ {c a d}, p c = .ok (a, d) → R c.rest d.rest

namespace Advances

variable {R : List Token → List Token → Prop}

theorem ite {q : Parser α} {t : Prop} [Decidable t] (first : Advances R p)
    (second : Advances R q) : Advances R (if t then p else q) := by
  split <;> assumption

theorem collect (first : Advances R p) : Advances R (Parser.collect p) where
  rest h := by
    obtain ⟨e, read, -, rfl⟩ := collect_eq_ok.mp h
    have taken : R _ e.rest := first.rest read
    exact taken

variable [Progress R]

theorem of_rest_eq (h : ∀ {c a d}, p c = .ok (a, d) → d.rest = c.rest) : Advances R p where
  rest run := by
    rw [h run]
    exact Progress.refl _

theorem bind {f : α → Parser β} (first : Advances R p) (second : ∀ a, Advances R (f a)) :
    Advances R (p >>= f) where
  rest h := by
    obtain ⟨a, e, h, h'⟩ := run_bind_eq_ok.mp h
    exact Progress.trans (first.rest h) ((second a).rest h')

end Advances

section
variable {R : List Token → List Token → Prop} [Progress R]

instance (x : α) : Advances R (pure x : Parser α) :=
  .of_rest_eq fun h => by cases h; rfl

instance (f : α → Parser β) [first : Advances R p] [second : ∀ a, Advances R (f a)] :
    Advances R (p >>= f) :=
  first.bind second

instance (q : Parser α) (t : Prop) [Decidable t] [first : Advances R p] [second : Advances R q] :
    Advances R (if t then p else q) :=
  first.ite second

instance (f : α → β) [Advances R p] : Advances R (f <$> p) where
  rest h := by
    obtain ⟨a, h, -⟩ := map_eq_ok.mp h
    exact Advances.rest h

instance [Advances R p] : Advances R (discard p : Parser PUnit) :=
  inferInstanceAs (Advances R ((fun _ => PUnit.unit) <$> p))

instance : Advances R (get : Parser Cursor) := .of_rest_eq fun h => by cases h; rfl

instance (f : Cursor → List Phrase) :
    Advances R (modify fun c => { c with row := f c } : Parser Unit) :=
  .of_rest_eq fun h => by cases h; rfl

instance (e : ParseError) : Advances R (throw e : Parser α) := .of_rest_eq nofun

instance (test : List Token → Bool) : Advances R (peek test) := by
  dsimp only [peek]; infer_instance

instance (test : List Token → Bool) : Advances R (peek2 test) := by
  dsimp only [peek2]; infer_instance

instance (test : List Token → Bool) : Advances R (peek3 test) := by
  dsimp only [peek3]; infer_instance

instance : Advances R atEnd := by dsimp only [atEnd]; infer_instance

instance : Advances R ahead := by dsimp only [ahead]; infer_instance

instance : Advances R lastKind? := by dsimp only [lastKind?]; infer_instance

instance (fault : Fault) : Advances R (fail fault : Parser α) := by
  dsimp only [fail]; infer_instance

instance (things : List String) : Advances R (expected things : Parser α) := by
  dsimp only [expected]; infer_instance

instance (q : Phrase) : Advances R (emit q) := .of_rest_eq fun h => by cases h; rfl

instance (ps : List Phrase) : Advances R (prepend ps) := .of_rest_eq fun h => by
  cases h
  dsimp only
  split <;> rfl

instance [first : Advances R p] : Advances R (collect p) := first.collect

instance [Advances R p] : Advances R (node k p) := by dsimp only [node]; infer_instance

instance [Advances R p] : Advances R (extend k p) := by
  unfold extend
  refine .bind inferInstance fun c => ?_
  split <;> infer_instance

instance (d : Delimiter) (missing : String) : Advances R (inGroup d missing p) where
  rest h := by
    obtain ⟨body, o, cl, after, content, rest, -, rfl⟩ := inGroup_eq_ok.mp h
    rw [rest]
    exact Progress.group _ _ _ _ _

instance : Advances R (parens p) := by dsimp only [parens]; infer_instance

instance : Advances R (brackets p) := by dsimp only [brackets]; infer_instance

instance : Advances R (braces p) := by dsimp only [braces]; infer_instance

instance (q : Parser Bool) [Advances R q] (n : Nat) : Advances R (repeatUpTo q n) := by
  induction n with
  | zero => dsimp only [repeatUpTo]; infer_instance
  | succ n ih => dsimp only [repeatUpTo]; infer_instance

instance (q : Parser Bool) [Advances R q] : Advances R (repeatWhile q) := by
  dsimp only [repeatWhile]; infer_instance

instance (q : Parser Unit) [Advances R q] : Advances R (untilEnd q) := by
  dsimp only [untilEnd]; infer_instance

instance (before : List Token) : Advances R (emitWritten k before) := by
  dsimp only [emitWritten]; infer_instance

instance [Advances R p] : Advances R (verbatim k p) := by dsimp only [verbatim]; infer_instance

instance (xs : List α) (f : α → PUnit → Parser (ForInStep PUnit)) (u : PUnit)
    [each : ∀ x u, Advances R (f x u)] : Advances R (forIn xs u f) := by
  induction xs with
  | nil => exact inferInstanceAs (Advances R (pure u))
  | cons x xs ih =>
    rw [List.forIn_cons]
    refine (each x u).bind fun step => ?_
    cases step with
    | done => exact inferInstanceAs (Advances R (pure _))
    | yield => exact ih

instance (xs : List α) (f : α → Parser β) [∀ x, Advances R (f x)] : Advances R (xs.mapM f) := by
  induction xs with
  | nil => exact inferInstanceAs (Advances R (pure []))
  | cons x xs ih =>
    rw [List.mapM_cons]
    infer_instance

instance [Advances R p] : Advances R (attempt p) where
  rest {c a d} h := by
    unfold attempt at h
    split at h
    · rename_i after read
      cases h
      have taken : R _ after.rest := Advances.rest read
      exact taken
    · cases h
      exact Progress.refl _

instance : Advances R (foresee p) := .of_rest_eq fun {c a d} h => by
  unfold foresee at h
  split at h <;> cases h
  rfl

end

end FormulaBinding.Parser
