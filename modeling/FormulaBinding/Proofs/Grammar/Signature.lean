import FormulaBinding.Proofs.Grammar.Rows
import FormulaBinding.Proofs.Identifier

/-!
# What a signature consists of

The parts of a pattern that is a name, of a parameter, and of a signature, as they are read.
-/

namespace FormulaBinding.Grammar
open FormulaBinding.Parser FormulaBinding.Token
open Phrase (Anything)

set_option synthInstance.maxSize 100000

variable {read : Reader}

/-- Whether a phrase is a name as a pattern is: behind its modifiers a word, and behind the word
nothing but a further pattern. -/
def IsNamePattern (allowed : String → Prop) (p : Phrase) : Prop :=
  ∃ start w e others, p = .node .namePattern (start ++ .token (.name w e) :: others) ∧
    (∀ q ∈ start, q.isWord "ref" ∨ q.isWord "mut") ∧ allowed w ∧
    (others = [] ∨ ∃ j e' more, others = .token (.mark '@' j e') :: more)

def IsBound (w : String) : Prop := Text.IsName w ∨ w = "self"

/-- What is read as a pattern. -/
structure IsPattern (p : Phrase) : Prop where
  own : p.is .outerAttribute = false
  name : p.is .namePattern → IsNamePattern IsBound p

theorem admits_isPattern {k : Kind} (h : k ≠ .outerAttribute) (h' : k ≠ .namePattern) :
    Admits IsPattern k where
  node _ := {
    own := by simpa [Phrase.is, Phrase.kind?] using h
    name := fun same => absurd same (by simpa [Phrase.is, Phrase.kind?] using h') }

instance : Admits IsPattern .pattern := admits_isPattern (by decide) (by decide)
instance : Admits IsPattern .pathExpr := admits_isPattern (by decide) (by decide)
instance : Admits IsPattern .literalExpr := admits_isPattern (by decide) (by decide)
instance : Admits IsPattern .constExpr := admits_isPattern (by decide) (by decide)
instance : Admits IsPattern .openRangePattern := admits_isPattern (by decide) (by decide)
instance : Admits IsPattern .restPattern := admits_isPattern (by decide) (by decide)
instance : Admits IsPattern .verbatimPattern := admits_isPattern (by decide) (by decide)

/-- An end of a range that is there is a pattern so far. -/
theorem row_of_rangeBound {c d : Cursor} (h : rangeBound read c = .ok (true, d)) :
    ∃ q, d.row = q :: c.row ∧ IsPattern q := by
  have of_node {k : Kind} [Admits IsPattern k] {p : Parser Unit} {c : Cursor}
      (h : (node k p >>= fun _ => pure true) c = .ok (true, d)) :
      ∃ q, d.row = q :: c.row ∧ IsPattern q := by
    obtain ⟨_, _, made, h⟩ := run_bind_eq_ok.mp h
    cases h
    exact Makes.row (S := fun _ => True) trivial made
  dsimp only [rangeBound] at h
  obtain ⟨_, _, peeked, h⟩ := run_bind_eq_ok.mp h
  cases peeked
  split at h
  · cases h
  obtain ⟨_, _, peeked, h⟩ := run_bind_eq_ok.mp h
  cases peeked
  split at h
  · exact of_node h
  obtain ⟨_, _, peeked, h⟩ := run_bind_eq_ok.mp h
  cases peeked
  obtain ⟨_, _, peeked, h⟩ := run_bind_eq_ok.mp h
  cases peeked
  obtain ⟨_, _, peeked, h⟩ := run_bind_eq_ok.mp h
  cases peeked
  obtain ⟨_, _, peeked, h⟩ := run_bind_eq_ok.mp h
  cases peeked
  split at h
  · exact of_node h
  obtain ⟨_, _, peeked, h⟩ := run_bind_eq_ok.mp h
  cases peeked
  split at h
  · exact of_node h
  · cases h

/-- A literal as a pattern may be the lower end of a range. -/
theorem makes_rangeBound {f : Bool → Parser Unit} [Remakes IsPattern (f true)]
    (bounded : ∀ c x, f false c ≠ .ok x) : Makes AreProper IsPattern (rangeBound read >>= f) where
  row {c a d} _ h := by
    obtain ⟨t, e, read, h⟩ := run_bind_eq_ok.mp h
    cases t with
    | true =>
      obtain ⟨q, row, hq⟩ := row_of_rangeBound read
      exact Remakes.row row hq h
    | false => exact absurd h (bounded _ _)

variable [∀ nonterminal, Advances Remains (read nonterminal)]

instance : Remakes IsPattern (rangeFrom read) := by
  dsimp only [rangeFrom]; infer_instance

instance : Makes AreProper IsPattern (pathPattern read) := by
  dsimp only [pathPattern]
  refine .bind_remakes inferInstance fun _ => ?_
  infer_instance

theorem isBound_of_notMem {w : String} {e : Extent} {ts : List Token}
    (proper : AreProper (.name w e :: ts)) (free : w ∉ reservedWords) : IsBound w :=
  .inl ⟨proper.1, free⟩

theorem areProper_of_suffix {ts us : List Token} (h : AreProper ts) (end_ : us <:+ ts) :
    AreProper us :=
  Ends.suffix h end_

/-- The words that may stand in front of a name in a pattern. -/
theorem row_of_word? {w : String} {t : Bool} {c d : Cursor} (h : word? w c = .ok (t, d)) :
    ∃ start, d.row = start ++ c.row ∧ (∀ q ∈ start, q.isWord w) ∧ d.rest <:+ c.rest := by
  rcases word?_eq_ok.mp h with ⟨-, e, ts, rest, rfl⟩ | ⟨-, -, rfl⟩
  · refine ⟨[.token (.name w e)], rfl, fun q hq => ?_, ?_⟩
    · rw [List.mem_singleton.mp hq]
      exact beq_self_eq_true _
    · rw [rest]
      exact List.suffix_cons _ _
  · exact ⟨[], rfl, List.forall_mem_nil _, List.suffix_rfl⟩

instance [Makes AreProper IsPattern (read .pattern)] :
    Makes AreProper IsPattern (node .namePattern do
      discard (word? "ref")
      discard (word? "mut")
      if ← peek (Ahead.word "self") then anyName else name
      if ← mark? "@" then read .pattern) where
  row {c a d} proper run := by
    obtain ⟨e, h, rfl⟩ := node_eq_ok.mp run
    obtain ⟨_, c₁, h₁, h⟩ := run_bind_eq_ok.mp h
    obtain ⟨_, h₁⟩ := discard_eq_ok.mp h₁
    obtain ⟨_, c₂, h₂, h⟩ := run_bind_eq_ok.mp h
    obtain ⟨_, h₂⟩ := discard_eq_ok.mp h₂
    obtain ⟨refs, row₁, areRefs, left₁⟩ := row_of_word? h₁
    obtain ⟨muts, row₂, areMuts, left₂⟩ := row_of_word? h₂
    have proper₂ : AreProper c₂.rest := areProper_of_suffix proper (left₂.trans left₁)
    obtain ⟨self, _, peeked, h⟩ := run_bind_eq_ok.mp h
    cases peeked
    have named : ∃ w e' c₃, c₃.row = .token (.name w e') :: c₂.row ∧ c₃.rest <:+ c₂.rest ∧
        IsBound w ∧ (do if ← mark? "@" then read .pattern) c₃ = .ok (a, e) := by
      cases seen : Ahead.word "self" c₂.rest with
      | true =>
        obtain ⟨e', ts, rest⟩ := ahead_word_eq_true.mp seen
        rw [seen, if_pos rfl] at h
        obtain ⟨_, _, took, h⟩ := run_bind_eq_ok.mp h
        obtain ⟨w, e'', us, rest', rfl⟩ := anyName_eq_ok.mp took
        rw [rest] at rest'
        cases rest'
        exact ⟨_, _, _, rfl, rest ▸ List.suffix_cons _ _, .inr rfl, h⟩
      | false =>
        rw [seen, if_neg Bool.false_ne_true] at h
        obtain ⟨_, _, took, h⟩ := run_bind_eq_ok.mp h
        obtain ⟨w, e', ts, rest, free, rfl⟩ := name_eq_ok.mp took
        rw [rest] at proper₂
        exact ⟨_, _, _, rfl, rest ▸ List.suffix_cons _ _, isBound_of_notMem proper₂ free, h⟩
    obtain ⟨w, e', c₃, row₃, left₃, bound, h⟩ := named
    have start : ∀ q ∈ (muts ++ refs).reverse, q.isWord "ref" ∨ q.isWord "mut" := by
      intro q hq
      rw [List.mem_reverse, List.mem_append] at hq
      exact hq.elim (fun hq => .inr (areMuts q hq)) (fun hq => .inl (areRefs q hq))
    have others : ∃ others, e.row.reverse =
        (muts ++ refs).reverse ++ .token (.name w e') :: others ∧
        (others = [] ∨ ∃ j e'' more, others = .token (.mark '@' j e'') :: more) := by
      obtain ⟨_, _, marked, further⟩ := run_bind_eq_ok.mp h
      rcases (mark?_eq_ok '@' rfl).mp marked with ⟨rfl, j, e'', ts, rest, rfl⟩ | ⟨rfl, -, rfl⟩
      · have proper₃ := areProper_of_suffix proper₂ left₃
        rw [rest] at proper₃
        rw [if_pos rfl] at further
        obtain ⟨q, row₄, -⟩ : ∃ q, e.row = q :: _ ∧ IsPattern q := Makes.row proper₃.2 further
        refine ⟨[.token (.mark '@' false e''), q], ?_, .inr ⟨_, _, _, rfl⟩⟩
        rw [row₄]
        simp [row₃, row₂, row₁]
      · cases further
        refine ⟨[], ?_, .inl rfl⟩
        simp [row₃, row₂, row₁]
    obtain ⟨others, row, ends⟩ := others
    refine ⟨_, rfl, rfl, fun _ => ⟨(muts ++ refs).reverse, w, e', others, ?_, start, bound, ends⟩⟩
    rw [row]

instance : Makes AreProper IsPattern (slicePattern read) := by
  dsimp only [slicePattern]; infer_instance

instance [Makes AreProper IsPattern (read .pattern)] :
    Makes AreProper IsPattern (pattern read) := by
  dsimp only [pattern]
  refine .bind fun _ => .ite inferInstance ?_
  refine .bind fun _ => .ite inferInstance ?_
  refine .bind fun _ => .ite inferInstance ?_
  refine .bind fun _ => .bind fun _ => .bind fun _ => .ite ?_ ?_
  · exact makes_rangeBound fun _ _ => nofun
  refine .bind fun _ => .bind fun _ => .ite inferInstance ?_
  refine .bind fun _ => .ite inferInstance ?_
  refine .bind fun _ => .ite inferInstance ?_
  refine .bind fun _ => .ite inferInstance ?_
  refine .bind fun _ => .bind fun _ => .ite ?_ inferInstance
  refine .bind fun (bounded, parts) => .ite (.emit (Admits.node _)) (.emit (Admits.node _))

theorem row_of_extendMacro {c d : Cursor} {u : Unit} {k : Kind} {parts row : List Phrase}
    (last : c.row = .node k parts :: row) (h : pathTypeOrBounds.extendMacro c = .ok (u, d)) :
    ∃ qs, d.row = .node k qs :: row := by
  rcases c with ⟨rest, inside, leftover, row'⟩
  cases last
  obtain ⟨_, _, got, h⟩ := run_bind_eq_ok.mp h
  cases got
  obtain ⟨_, _, moved, h⟩ := run_bind_eq_ok.mp h
  cases moved
  obtain ⟨e, -, rfl⟩ := node_eq_ok.mp h
  exact ⟨_, rfl⟩

theorem row_of_extendBounds {p : Parser Unit} {c d : Cursor} {u : Unit} {parts row : List Phrase}
    (last : c.row = .node .pathType parts :: row) (h : extendBounds p c = .ok (u, d)) :
    ∃ qs, d.row = .node .boundsType qs :: row := by
  rcases c with ⟨rest, inside, leftover, row'⟩
  cases last
  obtain ⟨_, _, got, h⟩ := run_bind_eq_ok.mp h
  cases got
  obtain ⟨_, _, moved, h⟩ := run_bind_eq_ok.mp h
  cases moved
  obtain ⟨e, -, rfl⟩ := node_eq_ok.mp h
  exact ⟨_, rfl⟩

variable {S : List Token → Prop} [Ends S]

instance (plus : Bool) : Makes S Anything (parenType read plus) := by
  dsimp only [parenType]
  refine .bind fun c => ?_
  refine .ite inferInstance (.ite inferInstance (.ite inferInstance ?_))
  refine .bind fun (isTuple, parts) => .ite (.emit trivial) (.bind fun _ => ?_)
  split
  · infer_instance
  · exact .emit trivial

instance (plus : Bool) (lifetimes : List Phrase) :
    Makes S Anything (pathTypeOrBounds read plus lifetimes) where
  row {c a d} _ h := by
    obtain ⟨_, e, made, h⟩ := run_bind_eq_ok.mp h
    obtain ⟨e, -, rfl⟩ := node_eq_ok.mp made
    obtain ⟨_, _, got, h⟩ := run_bind_eq_ok.mp h
    cases got
    rcases whole : e.row.reverse with _ | ⟨p, _ | ⟨p', ps⟩⟩
    · rw [whole] at h
      cases h
      exact ⟨_, rfl, trivial⟩
    · rw [whole] at h
      dsimp only [List.head?_cons] at h
      split at h
      · cases h
        exact ⟨_, rfl, trivial⟩
      · obtain ⟨_, _, peeked, h⟩ := run_bind_eq_ok.mp h
        cases peeked
        obtain ⟨_, _, peeked, h⟩ := run_bind_eq_ok.mp h
        cases peeked
        split at h
        · obtain ⟨_, _, got, h⟩ := run_bind_eq_ok.mp h
          cases got
          obtain ⟨_, _, moved, h⟩ := run_bind_eq_ok.mp h
          cases moved
          obtain ⟨qs, row⟩ := row_of_extendMacro rfl h
          exact ⟨_, row, trivial⟩
        · obtain ⟨_, _, peeked, h⟩ := run_bind_eq_ok.mp h
          cases peeked
          split at h
          · obtain ⟨_, _, moved, h⟩ := run_bind_eq_ok.mp h
            cases moved
            obtain ⟨qs, row⟩ := row_of_extendBounds rfl h
            exact ⟨_, row, trivial⟩
          · cases h
            exact ⟨_, rfl, trivial⟩
    · rw [whole] at h
      cases h
      exact ⟨_, rfl, trivial⟩

instance (k : Kind) : Makes S Anything (builtin k) := by dsimp only [builtin]; infer_instance

instance (plus : Bool) : Makes S Anything (type read plus) := by
  dsimp only [type]
  repeat' first
    | infer_instance
    | exact .emit trivial
    | refine .bind fun _ => ?_
    | refine .ite ?_ ?_

/-- What is read as a parameter: attributes, a pattern, and a type behind a colon. -/
def IsInput (p : Phrase) : Prop :=
  p.is .parameter → ∃ attributes pattern e type,
    p = .node .parameter (attributes ++ [pattern, .token (.mark ':' false e), type]) ∧
    (∀ q ∈ attributes, q.is .outerAttribute) ∧ IsPattern pattern

theorem isInput_of_not_is {p : Phrase} (h : p.is .parameter = false) : IsInput p := by
  intro is
  rw [h] at is
  cases is

instance : AdmitsTokens IsInput := ⟨fun _ => nofun⟩
instance : Admits IsInput .variadic := ⟨fun _ => nofun⟩

instance : Admits (fun q => q.is .outerAttribute) .outerAttribute := ⟨fun _ => rfl⟩

instance {φ : Phrase → Prop} [Admits φ .outerAttribute] : Adds S φ (outerAttribute read) := by
  dsimp only [outerAttribute]; infer_instance

instance {φ : Phrase → Prop} [Admits φ .outerAttribute] : Adds S φ (outerAttributes read) := by
  dsimp only [outerAttributes]; infer_instance

theorem emitAll_eq_ok {ps : List Phrase} {c d : Cursor} {u : Unit} :
    (do for q in ps do emit q : Parser Unit) c = .ok (u, d) ↔
      d = { c with row := ps.reverse ++ c.row } := by
  rw [run_bind_eq_ok]
  constructor
  · rintro ⟨_, e, emitted, done⟩
    cases done
    exact forIn_emit_eq_ok.mp emitted
  · intro h
    exact ⟨PUnit.unit, d, forIn_emit_eq_ok.mpr h, rfl⟩

theorem isInput_parameter {attributes : List Phrase} {pattern type : Phrase} {e : Extent}
    (all : ∀ q ∈ attributes, q.is .outerAttribute) (h : IsPattern pattern) :
    IsInput (.node .parameter (attributes ++ [pattern, .token (.mark ':' false e), type])) :=
  fun _ => ⟨attributes, pattern, e, type, rfl, all, h⟩

theorem makes_parameter [Makes AreProper IsPattern (read .pattern)]
    [Makes AreProper Anything (read (.type true))] {attributes : List Phrase}
    (all : ∀ q ∈ attributes, q.is .outerAttribute) :
    Makes AreProper IsInput (parameter read attributes) := by
  dsimp only [parameter]
  refine .bind fun received => ?_
  split
  · exact .bind_remakes (.emit (isInput_of_not_is rfl)) fun _ => inferInstance
  refine .bind fun _ => .bind fun _ => .ite ?_ ?_
  · refine .bind fun _ => .bind_remakes ⟨fun {c u d} proper run => ?_⟩ fun _ => inferInstance
    obtain ⟨e, inner, rfl⟩ := node_eq_ok.mp run
    obtain ⟨_, c₁, emitted, inner⟩ := run_bind_eq_ok.mp inner
    rw [emitAll_eq_ok] at emitted
    subst emitted
    obtain ⟨_, _, emitted, inner⟩ := run_bind_eq_ok.mp inner
    cases emitted
    obtain ⟨_, _, emitted, inner⟩ := run_bind_eq_ok.mp inner
    cases emitted
    obtain ⟨type, row, -⟩ : ∃ q, e.row = q :: _ ∧ Anything q := Makes.row (by exact proper) inner
    refine ⟨_, rfl, ?_⟩
    rw [row]
    simpa using isInput_parameter all (Admits.node (k := .pattern) _)
  · refine ⟨fun {c k d} proper run => ?_⟩
    obtain ⟨⟨variadic, parts⟩, _, collected, run⟩ := run_bind_eq_ok.mp run
    obtain ⟨e, inner, rfl, rfl⟩ := collect_eq_ok.mp collected
    obtain ⟨_, _, emitted, run⟩ := run_bind_eq_ok.mp run
    cases emitted
    cases run
    refine ⟨_, rfl, ?_⟩
    obtain ⟨_, c₁, emitted, inner⟩ := run_bind_eq_ok.mp inner
    rw [emitAll_eq_ok] at emitted
    subst emitted
    obtain ⟨_, c₂, bound, inner⟩ := run_bind_eq_ok.mp inner
    obtain ⟨_, c₃, colon, inner⟩ := run_bind_eq_ok.mp inner
    obtain ⟨dots, c₄, dotted, inner⟩ := run_bind_eq_ok.mp inner
    cases dots with
    | true =>
      cases inner
      exact isInput_of_not_is rfl
    | false =>
      have left : Remains _ c₂.rest := Advances.rest bound
      obtain ⟨pattern, row₂, isPattern⟩ : ∃ q, c₂.row = q :: _ ∧ IsPattern q :=
        Makes.row (by exact proper) bound
      obtain ⟨joined, at_, ts, rest, rfl⟩ := (mark_eq_ok ':' rfl).mp colon
      cases mark?_eq_ok_false dotted
      obtain ⟨_, _, typed, inner⟩ := run_bind_eq_ok.mp inner
      cases inner
      have proper₂ := areProper_of_suffix proper left
      rw [rest] at proper₂
      obtain ⟨type, row, -⟩ : ∃ q, e.row = q :: _ ∧ Anything q :=
        Makes.row (by exact proper₂.2) typed
      rw [row, row₂]
      simpa using isInput_parameter all isPattern

instance [Makes AreProper IsPattern (read .pattern)]
    [Makes AreProper Anything (read (.type true))] : Adds AreProper IsInput (parameters read) := by
  dsimp only [parameters]
  refine .repeatWhile (.bind inferInstance fun _ => .ite inferInstance ?_)
  refine .bind inferInstance fun _ => ?_
  refine .collect_bind (ψ := fun q => q.is .outerAttribute) fun _ attributes all => ?_
  have each : Adds AreProper IsInput (parameter read attributes) := (makes_parameter all).adds
  infer_instance

end FormulaBinding.Grammar
