import FormulaBinding.Proofs.Grammar.Steps
import FormulaBinding.Proofs.Token.Words

/-!
# Paths of words

Words with double colons between them are read as a path, up to where neither a further segment nor
arguments follow.
-/

namespace FormulaBinding

namespace Parser

variable {c : Cursor} {w : String} {e : Extent} {ts : List Token}

theorem peek_run (test : List Token → Bool) : peek test c = .ok (test c.rest, c) := rfl

theorem anyName_run (rest : c.rest = .name w e :: ts) :
    anyName c = .ok ((), { c with rest := ts, row := .token (.name w e) :: c.row }) :=
  anyName_eq_ok.mpr ⟨w, e, ts, rest, rfl⟩

theorem name_run (rest : c.rest = .name w e :: ts) (free : w ∉ reservedWords) :
    name c = .ok ((), { c with rest := ts, row := .token (.name w e) :: c.row }) :=
  name_eq_ok.mpr ⟨w, e, ts, rest, free, rfl⟩

theorem ahead_colons_eq_true : Ahead.mark "::" ts = true ↔
    ∃ e j e' us, ts = .mark ':' true e :: .mark ':' j e' :: us := by
  constructor
  · intro h
    obtain ⟨j, e, us, rfl, ahead⟩ := markChars_cons h
    obtain ⟨j', e', us, rfl, -⟩ := markChars_cons ahead
    cases j with
    | false => cases h
    | true => exact ⟨e, j', e', us, rfl⟩
  · rintro ⟨e, j, e', us, rfl⟩
    rfl

theorem colons_eq_ok {d : Cursor} {u : Unit} : mark "::" c = .ok (u, d) ↔
    ∃ e j e' us, c.rest = .mark ':' true e :: .mark ':' j e' :: us ∧ d = { c with
      rest := us
      row := .token (.mark ':' false e') :: .token (.mark ':' true e) :: c.row } := by
  constructor
  · intro h
    obtain ⟨seen, _, peeked, h⟩ := run_bind_eq_ok.mp h
    cases peeked
    split at h
    · rename_i ahead
      obtain ⟨e, j, e', us, rest⟩ := ahead_colons_eq_true.mp ahead
      have taken : takeMarks 2 c = .ok (u, d) := h
      rw [takeMarks_succ 1 rest, takeMarks_succ 0 rfl] at taken
      cases taken
      exact ⟨e, j, e', us, rest, rfl⟩
    · cases h
  · rcases c with ⟨_, inside, leftover, row⟩
    rintro ⟨e, j, e', us, rfl, rfl⟩
    rfl

theorem rest_of_colons? {d : Cursor} {t : Bool} (h : mark? "::" c = .ok (t, d)) :
    t = true ∧ (∃ e j e', c.rest = .mark ':' true e :: .mark ':' j e' :: d.rest) ∨
      t = false ∧ Ahead.mark "::" c.rest = false ∧ d = c := by
  obtain ⟨_, _, peeked, h⟩ := run_bind_eq_ok.mp h
  cases peeked
  cases ahead : Ahead.mark "::" c.rest with
  | false =>
    simp only [ahead, Bool.false_eq_true, if_false] at h
    cases h
    exact .inr ⟨rfl, rfl, rfl⟩
  | true =>
    obtain ⟨e, j, e', us, rest⟩ := ahead_colons_eq_true.mp ahead
    simp only [ahead, if_true] at h
    obtain ⟨_, _, taken, h⟩ := run_bind_eq_ok.mp h
    have taken : takeMarks 2 c = .ok _ := taken
    rw [takeMarks_succ 1 rest, takeMarks_succ 0 rfl] at taken
    cases taken
    cases h
    exact .inl ⟨rfl, e, j, e', rest⟩

theorem colons_run {e' : Extent} {j : Bool}
    (rest : c.rest = .mark ':' true e :: .mark ':' j e' :: ts) : mark "::" c = .ok ((), { c with
      rest := ts
      row := .token (.mark ':' false e') :: .token (.mark ':' true e) :: c.row }) :=
  colons_eq_ok.mpr ⟨e, j, e', ts, rest, rfl⟩

end Parser

namespace Grammar
open FormulaBinding.Parser FormulaBinding.Lexer

variable (read : Reader) {inExpr : Bool} {c : Cursor} {w : String} {e : Extent}
  {ts us : List Token}

def IsSegment (w : String) : Prop := w ∉ reservedWords ∨ w ∈ pathWords

/-- Words that a path in the place of a type may start with. -/
def IsRoot (w : String) : Prop := w ∉ reservedWords ∨ w ∈ ["super", "self", "crate"]

theorem IsRoot.isSegment (h : IsRoot w) : IsSegment w :=
  have among : ["super", "self", "crate"] ⊆ pathWords := by decide
  h.imp_right (among ·)

/-- Whether a path ends in front of tokens. -/
structure EndsPath (inExpr : Bool) (ts : List Token) : Prop where
  colons : Ahead.mark "::" ts = false
  arguments : argumentsAhead inExpr ts = false

theorem segment_run (rest : c.rest = .name w e :: ts) (h : IsSegment w)
    (none : argumentsAhead inExpr ts = false) : segment read inExpr c =
      .ok ((), { c with rest := ts, row := .node .segment [.token (.name w e)] :: c.row }) := by
  rcases c with ⟨_, inside, leftover, row⟩
  cases rest
  refine node_eq_ok.mpr ⟨⟨ts, inside, leftover, [.token (.name w e)]⟩, ?_, rfl⟩
  refine run_bind_eq_ok.mpr ⟨_, _, peek_run _, ?_⟩
  have ahead : Ahead.oneOf pathWords (.name w e :: ts) = pathWords.contains w := rfl
  simp only [ahead]
  by_cases special : w ∈ pathWords
  · rw [if_pos (by simpa using special)]
    exact anyName_run rfl
  · rw [if_neg (by simpa using special)]
    have free : w ∉ reservedWords := h.resolve_right special
    have other : w ≠ "Self" := by
      rintro rfl
      exact free (by decide)
    have self : Ahead.word "Self" (.name w e :: ts) = false := by
      simpa [Ahead.word] using other
    refine run_bind_eq_ok.mpr ⟨_, _, peek_run _, ?_⟩
    simp only [self]
    refine run_bind_eq_ok.mpr ⟨_, _, name_run rfl free, ?_⟩
    refine run_bind_eq_ok.mpr ⟨_, _, peek_run _, ?_⟩
    simp only [none]
    rfl

theorem argumentsAhead_segments {ws : List String} (segments : AreSegments ws ts)
    (ends : EndsPath inExpr us) : argumentsAhead inExpr (ts ++ us) = false := by
  cases segments with
  | nil => exact ends.arguments
  | cons e e' e'' others =>
    have angle (x : Extent) (xs : List Token) : Ahead.mark "<" (.mark ':' true x :: xs) = false :=
      rfl
    have third (x : String) (y : Extent) (xs : List Token) :
        Ahead.mark "<" (.name x y :: xs) = false := rfl
    simp [argumentsAhead, angle, third]

theorem length_le_of_areSegments {ws : List String} (segments : AreSegments ws ts) :
    ws.length ≤ ts.length := by
  induction segments with
  | nil => exact Nat.le_refl _
  | cons _ _ _ _ ih =>
    simp only [List.length_cons]
    omega

/-- A token of a path as it is read: a word is a segment. -/
def segmentPart : Token → Phrase
  | .name w e => .node .segment [.token (.name w e)]
  | t => .token t

/-- The path that words with double colons between them are read as. -/
def wordPath (ts : List Token) : Phrase := .node .path (ts.map segmentPart)

theorem tokens_wordPath (ts : List Token) : (wordPath ts).tokens = ts := by
  rw [wordPath, Phrase.tokens]
  induction ts with
  | nil => rfl
  | cons t ts ih =>
    have first : (segmentPart t).tokens = [t] := by cases t <;> rfl
    rw [List.map_cons, Phrase.tokensList, first, ih, List.singleton_append]

theorem repeatUpTo_segments {ws : List String} (segments : AreSegments ws ts)
    (all : ∀ w ∈ ws, IsSegment w) (ends : EndsPath inExpr us) {n : Nat} (enough : ws.length < n)
    (rest : c.rest = ts ++ us) : repeatUpTo (do
      if !(← peek pathGoesOn) then return false
      mark "::"
      segment read inExpr
      return true) n c = .ok ((), { c with
        rest := us, row := (ts.map segmentPart).reverse ++ c.row }) := by
  induction segments generalizing c n with
  | nil =>
    rcases c with ⟨_, inside, leftover, row⟩
    cases rest
    obtain ⟨n, rfl⟩ := Nat.exists_eq_succ_of_ne_zero (Nat.ne_zero_of_lt enough)
    have stops : pathGoesOn us = false := by rw [pathGoesOn, ends.colons, Bool.false_and]
    refine run_bind_eq_ok.mpr ⟨false, ⟨us, inside, leftover, row⟩, ?_, rfl⟩
    refine run_bind_eq_ok.mpr ⟨_, _, peek_run _, ?_⟩
    simp only [stops]
    rfl
  | @cons w ws ts e e' e'' others ih =>
    rcases c with ⟨ahead, inside, leftover, row⟩
    obtain rfl : ahead = .mark ':' true e :: .mark ':' false e' :: .name w e'' :: (ts ++ us) :=
      rest
    obtain ⟨n, rfl⟩ := Nat.exists_eq_succ_of_ne_zero (Nat.ne_zero_of_lt enough)
    have goes : pathGoesOn (.mark ':' true e :: .mark ':' false e' :: .name w e'' :: (ts ++ us)) =
        true := rfl
    have word := all w List.mem_cons_self
    have step := segment_run read
      (c := ⟨.name w e'' :: (ts ++ us), inside, leftover,
        .token (.mark ':' false e') :: .token (.mark ':' true e) :: row⟩)
      rfl word (argumentsAhead_segments others ends)
    have later := ih (fun v hv => all v (List.mem_cons_of_mem w hv))
      (c := ⟨ts ++ us, inside, leftover, .node .segment [.token (.name w e'')] ::
        .token (.mark ':' false e') :: .token (.mark ':' true e) :: row⟩)
      (by simpa using enough) rfl
    refine run_bind_eq_ok.mpr ⟨true, _, ?_, later.trans (by simp [segmentPart])⟩
    refine run_bind_eq_ok.mpr ⟨_, _, peek_run _, ?_⟩
    simp only [goes]
    refine run_bind_eq_ok.mpr ⟨_, _, colons_run rfl, ?_⟩
    exact run_bind_eq_ok.mpr ⟨_, _, step, rfl⟩

/-- Words with double colons between them are read as a path. -/
theorem path_run {root : String} {ws : List String} (segments : AreSegments ws ts)
    (first : IsSegment root) (all : ∀ w ∈ ws, IsSegment w) (ends : EndsPath inExpr us)
    (rest : c.rest = .name root e :: (ts ++ us)) : path read inExpr c =
      .ok ((), { c with rest := us, row := wordPath (.name root e :: ts) :: c.row }) := by
  rcases c with ⟨_, inside, leftover, row⟩
  cases rest
  have enough : ws.length < (ts ++ us).length + 1 := by
    have length := length_le_of_areSegments segments
    rw [List.length_append]
    omega
  have step := segment_run read (c := ⟨.name root e :: (ts ++ us), inside, leftover, []⟩)
    rfl first (argumentsAhead_segments segments ends)
  have later := repeatUpTo_segments read (c := ⟨ts ++ us, inside, leftover,
    [.node .segment [.token (.name root e)]]⟩) segments all ends enough rfl
  refine node_eq_ok.mpr ⟨⟨us, inside, leftover, (ts.map segmentPart).reverse ++
    [.node .segment [.token (.name root e)]]⟩, ?_, by simp [wordPath, segmentPart]⟩
  have start : mark? "::" ⟨.name root e :: (ts ++ us), inside, leftover, []⟩ =
      .ok (false, ⟨.name root e :: (ts ++ us), inside, leftover, []⟩) := rfl
  refine run_bind_eq_ok.mpr ⟨(), _, discard_eq_ok.mpr ⟨false, start⟩, ?_⟩
  refine run_bind_eq_ok.mpr ⟨(), _, step, ?_⟩
  exact run_bind_eq_ok.mpr ⟨_, _, rfl, later⟩

end Grammar
end FormulaBinding
