import FormulaBinding.Proofs.Grammar.Paths
import FormulaBinding.Proofs.Grammar.Types
import FormulaBinding.Unit.Render

/-!
# Reading parameters again

The parameters of a function are tokens between commas. However the type of a parameter is read, it
is read from the tokens between the colon and the next comma, so the names are read as they were
written.
-/

namespace FormulaBinding.Grammar
open FormulaBinding.Parser FormulaBinding.Token FormulaBinding.Lexer

/-! ## A path of words as a type -/

/-- Whether a list or a text ends in front of tokens, or a word or a group stands there. -/
inductive EndsType : List Token → Prop
  | nil : EndsType []
  | comma (e : Extent) (ts : List Token) : EndsType (.mark ',' false e :: ts)
  | word (w : String) (e : Extent) (ts : List Token) : EndsType (.name w e :: ts)
  | group (d : Delimiter) (body : List Token) (o cl : Extent) (ts : List Token) :
    EndsType (.group d body o cl :: ts)

variable {read : Reader} {c d : Cursor} {w : String} {e : Extent} {ts us : List Token}

theorem EndsType.mark (ends : EndsType ts) {m : String} {x : Char} {s : List Char}
    (chars : m.toList = x :: s) (other : x ≠ ',') : Ahead.mark m ts = false := by
  rw [Ahead.mark, chars]
  cases ends with
  | nil => cases s <;> rfl
  | comma e ts => cases s <;> simp [Ahead.markChars, other]
  | word => cases s <;> rfl
  | group => cases s <;> rfl

theorem EndsType.endsPath (ends : EndsType ts) : EndsPath false ts where
  colons := ends.mark (x := ':') (s := [':']) rfl (by decide)
  arguments := by
    have angle : Ahead.mark "<" ts = false := ends.mark (x := '<') (s := []) rfl (by decide)
    have colons : Ahead.mark "::" ts = false := ends.mark (x := ':') (s := [':']) rfl (by decide)
    simp [argumentsAhead, angle, colons]

theorem IsRoot.ne (h : IsRoot w) {v : String} (reserved : v ∈ reservedWords)
    (other : v ∉ ["super", "self", "crate"]) : w ≠ v := by
  rintro rfl
  exact h.elim (absurd reserved) (absurd · other)

theorem IsRoot.pathAhead (h : IsRoot w) : pathAhead (.name w e :: us) = true := by
  rcases h with free | mem
  · have named : Ahead.name (.name w e :: us) = true := by simpa [Ahead.name] using free
    rw [Grammar.pathAhead, named]
    rfl
  · have among : ["super", "self", "crate"] ⊆ ["super", "self", "Self", "crate"] := by decide
    have special : Ahead.oneOf ["super", "self", "Self", "crate"] (.name w e :: us) = true :=
      List.contains_iff_mem.mpr (among mem)
    rw [Grammar.pathAhead, special, Bool.or_true]
    rfl

/-- What follows the first word of a path is no number sign. -/
theorem ahead_number_sign {ws : List String} (segments : AreSegments ws ts) (ends : EndsType us) :
    Ahead.mark "#" (ts ++ us) = false := by
  cases segments with
  | nil => exact ends.mark (x := '#') (s := []) rfl (by decide)
  | cons => rfl

def pathType (ts : List Token) : Phrase := .node .pathType [wordPath ts]

theorem tokens_pathType (ts : List Token) : (pathType ts).tokens = ts := by
  rw [pathType, Phrase.tokens, Phrase.tokensList, tokens_wordPath]
  exact List.append_nil ts

theorem type_eq_of_pathAhead {plus : Bool} (noFor : Ahead.word "for" c.rest = false)
    (noGroup : Ahead.group .parenthesis c.rest = false) (functions : functionAhead c.rest = false)
    (builtin : builtinAhead c.rest = false) (path : pathAhead c.rest = true) :
    type read plus c = pathTypeOrBounds read plus [] c := by
  have none : collect (forLifetimes read) c = .ok ((false, []), c) := by
    refine collect_eq_ok.mpr ⟨{ c with row := [] }, ?_, rfl, rfl⟩
    refine run_bind_eq_ok.mpr ⟨_, _, peek_run _, ?_⟩
    simp only [noFor, Bool.false_eq_true, if_false]
    rfl
  rw [type, run_bind_of_ok none]
  simp only [Bool.false_eq_true, if_false]
  rw [run_bind_of_ok (peek_run _)]
  simp only [noGroup, Bool.false_eq_true, if_false]
  rw [run_bind_of_ok (peek_run _)]
  simp only [functions, Bool.false_eq_true, if_false]
  rw [run_bind_of_ok (peek_run _)]
  simp only [builtin, Bool.false_eq_true, if_false]
  rw [run_bind_of_ok (peek_run _)]
  simp only [path, if_true]

/-- A path that neither the arguments of a macro nor further bounds follow. -/
theorem pathTypeOrBounds_run {plus : Bool} {q : Phrase} {rest : List Token}
    (path : Grammar.anyPath read false { c with row := [] } = .ok ((), { c with rest, row := [q] }))
    (bang : q.is .qualifiedPath = true ∨ Ahead.mark "!" rest = false)
    (more : plus = true → Ahead.mark "+" rest = false) : pathTypeOrBounds read plus [] c =
      .ok ((), { c with rest, row := .node .pathType [q] :: c.row }) := by
  refine run_bind_eq_ok.mpr ⟨_, _, node_eq_ok.mpr ⟨_, path, rfl⟩, ?_⟩
  refine run_bind_eq_ok.mpr ⟨_, _, rfl, ?_⟩
  cases qualified : q.is .qualifiedPath with
  | true =>
    simp only [List.reverse_singleton, List.head?_cons, qualified, if_true]
    rfl
  | false =>
    have bang := bang.resolve_left (by rw [qualified]; exact Bool.false_ne_true)
    simp only [List.reverse_singleton, List.head?_cons, qualified, Bool.false_eq_true, if_false]
    refine run_bind_eq_ok.mpr ⟨_, _, peek_run _, run_bind_eq_ok.mpr ⟨_, _, peek_run _, ?_⟩⟩
    simp only [bang, Bool.and_false, Bool.false_and, Bool.false_eq_true, if_false]
    refine run_bind_eq_ok.mpr ⟨_, _, peek_run _, ?_⟩
    cases plus with
    | false => rfl
    | true =>
      simp only [more rfl, Bool.and_false]
      rfl

/-- Words with double colons between them are read as a type. -/
theorem type_path_run {root : String} {ws : List String} (segments : AreSegments ws ts)
    (first : IsRoot root) (all : ∀ w ∈ ws, IsSegment w) (ends : EndsType us)
    (rest : c.rest = .name root e :: (ts ++ us)) (plus : Bool) : type read plus c =
      .ok ((), { c with rest := us, row := pathType (.name root e :: ts) :: c.row }) := by
  have noFor : Ahead.word "for" c.rest = false := by
    rw [rest]
    exact beq_eq_false_iff_ne.mpr (first.ne (by decide) (by decide))
  have functions : functionAhead c.rest = false := by
    rw [rest]
    simp [functionAhead, Ahead.oneOf, first.ne (v := "fn") (by decide) (by decide),
      first.ne (v := "unsafe") (by decide) (by decide),
      first.ne (v := "extern") (by decide) (by decide)]
  have hash : builtinAhead c.rest = false := by
    rw [rest, builtinAhead, List.drop_succ_cons, List.drop_zero, ahead_number_sign segments ends,
      Bool.and_false]
  have noGroup : Ahead.group .parenthesis c.rest = false := by rw [rest]; rfl
  have path : Grammar.pathAhead c.rest = true := rest ▸ first.pathAhead
  have anyPath : anyPath read false { c with row := [] } =
      .ok ((), { c with rest := us, row := [wordPath (.name root e :: ts)] }) := by
    have less : Ahead.mark "<" c.rest = false := by rw [rest]; rfl
    refine run_bind_eq_ok.mpr ⟨_, _, peek_run _, ?_⟩
    simp only [less, Bool.false_eq_true, if_false]
    exact path_run read (c := { c with row := [] }) segments first.isSegment all ends.endsPath rest
  rw [type_eq_of_pathAhead noFor noGroup functions hash path]
  exact pathTypeOrBounds_run anyPath (.inr (ends.mark (x := '!') (s := []) rfl (by decide)))
    fun _ => ends.mark (x := '+') (s := []) rfl (by decide)

theorem type_word_run (rest : c.rest = .name w e :: us) (free : w ∉ reservedWords)
    (ends : EndsType us) (plus : Bool) : type read plus c =
      .ok ((), { c with rest := us, row := pathType [.name w e] :: c.row }) :=
  type_path_run .nil (.inl free) (List.forall_mem_nil _) ends rest plus

theorem ahead_name (free : w ∉ reservedWords) : Ahead.name (.name w e :: us) = true := by
  simpa [Ahead.name] using free

theorem ahead_word_of_reserved (free : w ∉ reservedWords) {v : String} (word : v ∈ reservedWords) :
    Ahead.word v (.name w e :: us) = false := by
  have other : w ≠ v := by
    rintro rfl
    exact free word
  simpa [Ahead.word] using other

/-! ## A name as a pattern -/

def wordPattern (w : String) (e : Extent) : Phrase := .node .namePattern [.token (.name w e)]

variable {e' : Extent}

theorem ahead_oneOf_of_reserved (free : w ∉ reservedWords) {ws : List String}
    (words : ∀ v ∈ ws, v ∈ reservedWords) : Ahead.oneOf ws (.name w e :: us) = false := by
  have other : w ∉ ws := fun mem => free (words w mem)
  simpa [Ahead.oneOf] using other

/-- A name in front of a colon or an equality sign is no path that goes on. -/
theorem pathPatternAhead_word {x : Char} (ends : x = ':' ∨ x = '=') (free : w ∉ reservedWords) :
    pathPatternAhead (.name w e :: .mark x false e' :: us) = false := by
  have words : Ahead.oneOf ["Self", "super", "crate"] (.name w e :: .mark x false e' :: us) =
      false := ahead_oneOf_of_reserved free (by decide)
  have colons : Ahead.mark "::" (.mark x false e' :: us) = false := by
    rcases ends with rfl | rfl <;> rfl
  have bang : Ahead.mark "!" (.mark x false e' :: us) = false := by
    rcases ends with rfl | rfl <;> rfl
  have dots : Ahead.mark ".." (.mark x false e' :: us) = false := by
    rcases ends with rfl | rfl <;> rfl
  have group (y : Delimiter) : Ahead.group y (.mark x false e' :: us) = false := rfl
  have none {m : String} {y : Char} {s : List Char} (chars : m.toList = y :: s) :
      Ahead.mark m (.name w e :: .mark x false e' :: us) = false := by
    rw [Ahead.mark, chars]
    cases s <;> rfl
  simp only [pathPatternAhead, List.drop_succ_cons, List.drop_zero, colons, bang, dots, group,
    none (m := "::") (y := ':') (s := [':']) rfl, none (m := "<") (y := '<') (s := []) rfl,
    words, Bool.or_false, Bool.and_false]

theorem ahead_literal_of_reserved (free : w ∉ reservedWords) :
    Ahead.literal (.name w e :: us) = false := by
  have other : w ≠ "true" ∧ w ≠ "false" := by
    refine ⟨?_, ?_⟩
    all_goals
      rintro rfl
      exact free (by decide)
  simpa [Ahead.literal] using other

/-- A name is read as a pattern in front of a colon or an equality sign. -/
theorem pattern_word_run {x : Char} (ends : x = ':' ∨ x = '=')
    (rest : c.rest = .name w e :: .mark x false e' :: us)
    (free : w ∉ reservedWords) : pattern read c = .ok ((), { c with
      rest := .mark x false e' :: us, row := wordPattern w e :: c.row }) := by
  rcases c with ⟨_, inside, leftover, row⟩
  cases rest
  have reserved {v : String} (word : v ∈ reservedWords) :
      Ahead.word v (.name w e :: .mark x false e' :: us) = false :=
    ahead_word_of_reserved free word
  have noPath : pathPatternAhead (.name w e :: .mark x false e' :: us) = false :=
    pathPatternAhead_word ends free
  have noLiteral : Ahead.literal (.name w e :: .mark x false e' :: us) = false :=
    ahead_literal_of_reserved free
  have noMinus : Ahead.mark "-" (.name w e :: .mark x false e' :: us) = false := rfl
  refine run_bind_eq_ok.mpr ⟨_, _, peek_run _, ?_⟩
  simp only [noPath, Bool.false_eq_true, if_false]
  refine run_bind_eq_ok.mpr ⟨_, _, peek_run _, ?_⟩
  simp only [reserved (v := "_") (by decide), Bool.false_eq_true, if_false]
  refine run_bind_eq_ok.mpr ⟨_, _, peek_run _, ?_⟩
  simp only [reserved (v := "box") (by decide), Bool.false_eq_true, if_false]
  refine run_bind_eq_ok.mpr ⟨_, _, peek_run _, run_bind_eq_ok.mpr ⟨_, _, peek_run _,
    run_bind_eq_ok.mpr ⟨_, _, peek_run _, ?_⟩⟩⟩
  simp only [noMinus, noLiteral, reserved (v := "const") (by decide), Bool.or_false,
    Bool.false_eq_true, if_false]
  refine run_bind_eq_ok.mpr ⟨_, _, peek_run _, run_bind_eq_ok.mpr ⟨_, _, peek_run _, ?_⟩⟩
  simp only [ahead_name free, Bool.or_true, if_true]
  refine node_eq_ok.mpr ⟨⟨.mark x false e' :: us, inside, leftover, [.token (.name w e)]⟩, ?_,
    rfl⟩
  have noWord {v : String} (word : v ∈ reservedWords) :
      word? v ⟨.name w e :: .mark x false e' :: us, inside, leftover, []⟩ =
        .ok (false, ⟨.name w e :: .mark x false e' :: us, inside, leftover, []⟩) :=
    word?_eq_ok.mpr (.inr ⟨rfl, reserved word, rfl⟩)
  refine run_bind_eq_ok.mpr ⟨(), _, discard_eq_ok.mpr ⟨_, noWord (by decide)⟩, ?_⟩
  refine run_bind_eq_ok.mpr ⟨(), _, discard_eq_ok.mpr ⟨_, noWord (by decide)⟩, ?_⟩
  refine run_bind_eq_ok.mpr ⟨_, _, peek_run _, ?_⟩
  simp only [reserved (v := "self") (by decide), Bool.false_eq_true, if_false]
  refine run_bind_eq_ok.mpr ⟨(), _, name_run rfl free, ?_⟩
  have noAt : Ahead.mark "@" (.mark x false e' :: us) = false := by
    rcases ends with rfl | rfl <;> rfl
  exact run_bind_eq_ok.mpr ⟨false, _, (mark?_eq_ok '@' rfl).mpr (.inr ⟨rfl, noAt, rfl⟩), rfl⟩

/-! ## A name with a type as a parameter -/

/-- Whether a phrase is a parameter that is a name, with a type behind a colon. -/
def IsInputOf (w : String) (q : Phrase) : Prop :=
  ∃ e e' parts type, q = .node .parameter parts ∧ parts.filter (!Phrase.is .outerAttribute ·) =
    wordPattern w e :: .token (.mark ':' false e') :: type

theorem attempt_receiver_run (rest : c.rest = .name w e :: us) (free : w ∉ reservedWords) :
    attempt (collect (receiver read)) c = .ok (none, c) := by
  cases tried : collect (receiver read) { c with leftover := none } with
  | error x => rw [attempt, tried]
  | ok x =>
    obtain ⟨d, run, -, -⟩ := collect_eq_ok.mp tried
    have noMark : Ahead.mark "&" (.name w e :: us) = false := rfl
    have noMut : Ahead.word "mut" (.name w e :: us) = false :=
      ahead_word_of_reserved free (by decide)
    obtain ⟨_, _, reference, run⟩ := run_bind_eq_ok.mp run
    obtain ⟨rfl, joined, x, ts, here, rfl⟩ | ⟨rfl, -, rfl⟩ := (mark?_eq_ok '&' rfl).mp reference
    · cases rest.symm.trans here
    obtain ⟨_, _, muts, run⟩ := run_bind_eq_ok.mp run
    obtain ⟨_, muts⟩ := discard_eq_ok.mp muts
    obtain ⟨rfl, x, ts, here, rfl⟩ | ⟨rfl, -, rfl⟩ := word?_eq_ok.mp muts
    · cases rest.symm.trans here
      exact absurd (by decide) free
    obtain ⟨_, _, self, run⟩ := run_bind_eq_ok.mp run
    obtain ⟨x, ts, here, rfl⟩ := word_eq_ok.mp self
    cases rest.symm.trans here
    exact absurd (by decide) free

theorem ahead_dots_of_areCalm (calm : AreCalm ts) (ends : EndsType us) :
    Ahead.mark "..." (ts ++ us) = false := by
  cases ts with
  | nil => exact ends.mark (x := '.') (s := ['.', '.']) rfl (by decide)
  | cons t ts =>
    cases t with
    | mark x joined e =>
      have scanned := calm 0
      have other : x ≠ '.' := by
        rintro rfl
        simp [scan, scanStep] at scanned
      simp [Ahead.mark, Ahead.markChars, other.symm]
    | _ => rfl

/-- A name with a type is read as a parameter exactly if the type is read behind the colon. -/
theorem parameter_eq_ok {n : Nat} {k : Kind}
    (rest : c.rest = .name w e :: .mark ':' false e' :: (ts ++ us)) (free : w ∉ reservedWords)
    (calm : AreCalm ts) (ends : EndsType us) :
    parameter (reader (n + 1)) [] c = .ok (k, d) ↔ k = .parameter ∧ ∃ x,
      reader (n + 1) (.type true) ⟨ts ++ us, c.inside, c.leftover,
        [.token (.mark ':' false e'), wordPattern w e]⟩ = .ok ((), x) ∧
      d = { x with row := .node .parameter x.row.reverse :: c.row } := by
  have noAngle : Ahead.mark "<" (c.rest.drop 1) = false := by rw [rest]; rfl
  have name : reader (n + 1) .pattern { c with row := [] } = .ok ((),
      ⟨.mark ':' false e' :: (ts ++ us), c.inside, c.leftover, [wordPattern w e]⟩) :=
    pattern_word_run (.inl rfl) rest free
  have noDots : mark? "..." ⟨ts ++ us, c.inside, c.leftover,
      [.token (.mark ':' false e'), wordPattern w e]⟩ = .ok (false, ⟨ts ++ us, c.inside, c.leftover,
        [.token (.mark ':' false e'), wordPattern w e]⟩) := by
    refine run_bind_eq_ok.mpr ⟨_, _, peek_run _, ?_⟩
    simp only [ahead_dots_of_areCalm calm ends, Bool.false_eq_true, if_false]
    rfl
  rw [parameter, run_bind_of_ok (attempt_receiver_run rest free)]
  dsimp only
  rw [run_bind_of_ok (peek_run _), run_bind_of_ok rfl]
  simp only [noAngle, Bool.and_false, Bool.false_eq_true, if_false]
  rw [run_bind_eq_ok]
  simp only [collect_eq_ok]
  rw [run_bind_of_ok rfl, run_bind_of_ok name,
    run_bind_of_ok (a := ()) ((mark_eq_ok ':' rfl).mpr ⟨_, _, _, rfl, rfl⟩), run_bind_of_ok noDots]
  simp only [Bool.false_eq_true, if_false]
  constructor
  · rintro ⟨⟨variadic, parts⟩, f, ⟨x, run, rfl, rfl⟩, h⟩
    obtain ⟨_, y, typed, run⟩ := run_bind_eq_ok.mp run
    cases run
    cases h
    exact ⟨rfl, x, typed, rfl⟩
  · rintro ⟨rfl, x, typed, rfl⟩
    exact ⟨(false, _), _, ⟨x, run_bind_eq_ok.mpr ⟨_, _, typed, rfl⟩, rfl, rfl⟩, rfl⟩

/-- A parameter takes the tokens of its type, where that ends in front of a comma or the end. -/
theorem takes_of_parameter {n : Nat} {k : Kind}
    (rest : c.rest = .name w e :: .mark ':' false e' :: (ts ++ us)) (free : w ∉ reservedWords)
    (calm : AreCalm ts) (ends : EndsType us) (h : parameter (reader (n + 1)) [] c = .ok (k, d)) :
    (∃ q, d.row = q :: c.row ∧ IsInputOf w q) ∧ Takes 0 0 (ts ++ us) d.rest := by
  obtain ⟨-, x, typed, rfl⟩ := (parameter_eq_ok rest free calm ends).mp h
  obtain ⟨q, row, -⟩ := (SettledReader.type true).row trivial typed
  have takes : Takes 0 0 (ts ++ us) x.rest := Advances.rest typed
  refine ⟨⟨_, rfl, e, e', _, [q].filter (!Phrase.is .outerAttribute ·), rfl, ?_⟩, takes⟩
  rw [row]
  rfl

/-! ## Receivers -/

def receiverParts : Receiver → List Token
  | .shared => op "&" ++ ident "self"
  | .exclusive => op "&" ++ ident "mut" ++ ident "self"
  | .owned => ident "self"

theorem receiver_run (r : Receiver) (rest : c.rest = RenderContext.receiver (some r) ++ us) :
    receiver read c = .ok ((), { c with
      rest := op "," ++ us, row := ((receiverParts r).map .token).reverse ++ c.row }) := by
  rcases c with ⟨_, inside, leftover, row⟩
  cases rest
  cases r with
  | shared => rfl
  | exclusive => rfl
  | owned => rfl

theorem parameter_receiver_run (r : Receiver)
    (rest : c.rest = RenderContext.receiver (some r) ++ us) :
    parameter read [] c = .ok (.receiver, { c with
      rest := op "," ++ us
      row := .node .receiver ((receiverParts r).map .token) :: c.row }) := by
  have collected : collect (receiver read) { c with leftover := none } =
      .ok (((), (receiverParts r).map .token),
        { c with rest := op "," ++ us, leftover := none }) := by
    refine collect_eq_ok.mpr ⟨_, receiver_run r rest, ?_, rfl⟩
    simp
  have tried : attempt (collect (receiver read)) c =
      .ok (some ((), (receiverParts r).map .token), { c with rest := op "," ++ us }) := by
    rw [attempt, collected]
    cases c.leftover <;> rfl
  rw [parameter, run_bind_of_ok tried]
  rfl

/-! ## All parameters -/

def inputTokens (p : String × List Token) : List Token := ident p.1 ++ op ":" ++ p.2

def parameterStep (read : Reader) : Parser Bool := do
  if ← atEnd then return false
  let before := (← get).row
  let (_, attributes) ← collect (outerAttributes read)
  if ← peek (Ahead.mark "...") then
    node .variadic do
      for a in attributes do emit a
      Parser.mark "..."
    if !(← atEnd) then Parser.mark ","
    return false
  let kind ← parameter read attributes
  if kind == .variadic then
    if !(← atEnd) then Parser.mark ","
    return false
  if kind == .receiver then
    let place := (← get).row.head?.bind (selfPlace ·.parts)
    if before.any (Phrase.is .receiver) then
      throw { fault := .refused "unexpected second method receiver", place }
    if !before.isEmpty then throw { fault := .refused "unexpected method receiver", place }
  if ← atEnd then return false
  Parser.mark ","
  return true

/-- Whether a parameter ends in front of tokens. -/
inductive EndsInput : List Token → Prop
  | nil : EndsInput []
  | comma (e : Extent) (ts : List Token) : EndsInput (.mark ',' false e :: ts)

theorem EndsInput.endsType (h : EndsInput ts) : EndsType ts := by
  cases h with
  | nil => exact .nil
  | comma e ts => exact .comma e ts

theorem EndsInput.endsList (h : EndsInput ts) : EndsList ts := by
  intro t us same
  cases h with
  | nil => cases same
  | comma e ts =>
    cases same
    exact ⟨',', false, e, rfl, .inl rfl⟩

theorem outerAttributes_run (none : Ahead.mark "#" c.rest = false) :
    outerAttributes read c = .ok ((), c) := by
  refine run_bind_eq_ok.mpr ⟨_, _, rfl, run_bind_eq_ok.mpr ⟨false, c, ?_, rfl⟩⟩
  refine run_bind_eq_ok.mpr ⟨_, _, peek_run _, ?_⟩
  simp only [none]
  rfl

theorem atEnd_run (some : c.rest ≠ []) : atEnd c = .ok (false, c) := by
  have more : c.rest.isEmpty = false := by simpa using some
  rw [← more]
  rfl

theorem parameterStep_eq_ok {more : Bool} (rest : c.rest = .name w e :: ts)
    (only : ∀ {k : Kind} {f : Cursor}, parameter read [] c = .ok (k, f) → k = .parameter) :
    parameterStep read c = .ok (more, d) ↔ ∃ f, parameter read [] c = .ok (.parameter, f) ∧
      (do
        if ← atEnd then return false
        Parser.mark ","
        return true : Parser Bool) f = .ok (more, d) := by
  have noAttribute : Ahead.mark "#" c.rest = false := by rw [rest]; rfl
  have noDots : Ahead.mark "..." c.rest = false := by rw [rest]; rfl
  have attributes : collect (outerAttributes read) c = .ok (((), []), c) :=
    collect_eq_ok.mpr ⟨_, outerAttributes_run noAttribute, rfl, rfl⟩
  rw [parameterStep, run_bind_of_ok (atEnd_run (by simp [rest]))]
  simp only [Bool.false_eq_true, if_false]
  rw [run_bind_of_ok (a := c) (d := c) rfl, run_bind_of_ok attributes,
    run_bind_of_ok (peek_run _)]
  simp only [noDots, Bool.false_eq_true, if_false]
  rw [run_bind_eq_ok]
  constructor
  · rintro ⟨k, f, run, h⟩
    cases only run
    exact ⟨f, run, h⟩
  · rintro ⟨f, run, h⟩
    exact ⟨_, f, run, h⟩

theorem takes_of_parameterStep {n : Nat} {p : String × List Token} {more : Bool}
    (rest : c.rest = inputTokens p ++ us) (free : p.1 ∉ reservedWords) (calm : AreCalm p.2)
    (ends : EndsInput us) (h : parameterStep (reader (n + 1)) c = .ok (more, d)) :
    ∃ q, IsInputOf p.1 q ∧
      ((us = [] ∧ more = false ∧ d.rest = [] ∧ d.row = q :: c.row) ∨
        ∃ e e' us', us = .mark ',' false e :: us' ∧ more = true ∧ d.rest = us' ∧
          d.row = .token (.mark ',' false e') :: q :: c.row) := by
  have rest : c.rest = .name p.1 Extent.nowhere :: .mark ':' false Extent.nowhere ::
      (p.2 ++ us) := rest
  obtain ⟨f, read, h⟩ := (parameterStep_eq_ok rest fun run =>
    ((parameter_eq_ok rest free calm ends.endsType).mp run).1).mp h
  obtain ⟨⟨q, row, named⟩, taken, same, isCalm⟩ :=
    takes_of_parameter rest free calm ends.endsType read
  refine ⟨q, named, ?_⟩
  obtain ⟨_, _, ended, h⟩ := run_bind_eq_ok.mp h
  cases ended
  split at h
  · rename_i isEnd
    cases h
    have none : d.rest = [] := List.isEmpty_iff.mp isEnd
    rw [none] at same
    obtain ⟨-, rfl⟩ := append_inj_of_areCalm calm isCalm ends.endsList EndsInput.nil.endsList same
    exact .inl ⟨rfl, rfl, none, row⟩
  · obtain ⟨_, _, comma, h⟩ := run_bind_eq_ok.mp h
    cases h
    obtain ⟨joined, e, ts, next, rfl⟩ := (mark_eq_ok ',' rfl).mp comma
    rw [next] at same
    have endsSecond : EndsList (.mark ',' joined e :: ts) := by
      intro t us same
      cases same
      exact ⟨',', joined, e, rfl, .inl rfl⟩
    obtain ⟨-, rfl⟩ := append_inj_of_areCalm calm isCalm ends.endsList endsSecond same
    cases ends with
    | comma => exact .inr ⟨e, e, ts, rfl, rfl, rfl, by rw [row]⟩

theorem commaSeparated_cons_cons (ts us : List Token) (tss : List (List Token)) :
    commaSeparated (ts :: us :: tss) =
      ts ++ .mark ',' false Extent.nowhere :: commaSeparated (us :: tss) := by
  rw [commaSeparated, List.append_assoc]
  · rfl
  · exact nofun

theorem parameterStep_run_of_nil (none : c.rest = []) :
    parameterStep read c = .ok (false, c) := by
  have ended : atEnd c = .ok (true, c) := by rw [atEnd, run_bind_of_ok (a := c) (d := c) rfl, none]; rfl
  rw [parameterStep, run_bind_of_ok ended]
  rfl

theorem repeat_parameterStep {n m : Nat} {ps : List (String × List Token)} {u : Unit}
    (all : ∀ p ∈ ps, p.1 ∉ reservedWords ∧ AreCalm p.2) (enough : ps.length < m)
    (rest : c.rest = commaSeparated (ps.map inputTokens))
    (h : repeatUpTo (parameterStep (reader (n + 1))) m c = .ok (u, d)) :
    d.rest = [] ∧ ∃ row, d.row = row ++ c.row ∧
      List.Forall₂ IsInputOf (ps.map Prod.fst) (Phrase.rolesOf row.reverse) := by
  induction ps generalizing c m with
  | nil =>
    obtain ⟨m, rfl⟩ := Nat.exists_eq_succ_of_ne_zero (Nat.ne_zero_of_lt enough)
    rw [repeatUpTo, run_bind_of_ok (parameterStep_run_of_nil rest)] at h
    cases h
    exact ⟨rest, [], rfl, .nil⟩
  | cons p ps ih =>
    obtain ⟨m, rfl⟩ := Nat.exists_eq_succ_of_ne_zero (Nat.ne_zero_of_lt enough)
    obtain ⟨free, calm⟩ := all p List.mem_cons_self
    obtain ⟨more, f, step, h⟩ := run_bind_eq_ok.mp h
    cases ps with
    | nil =>
      have alone : c.rest = inputTokens p ++ [] := by rw [rest, List.append_nil]; rfl
      obtain ⟨q, named, ⟨-, rfl, none, row⟩ | ⟨_, _, _, same, -⟩⟩ :=
        takes_of_parameterStep alone free calm .nil step
      · cases h
        obtain ⟨_, _, _, _, rfl, own⟩ := named
        exact ⟨none, [_], row, .cons ⟨_, _, _, _, rfl, own⟩ .nil⟩
      · cases same
    | cons p' ps =>
      rw [List.map_cons, List.map_cons, commaSeparated_cons_cons, ← List.map_cons] at rest
      obtain ⟨q, named, ⟨same, -⟩ | ⟨e, e', us, same, rfl, left, row⟩⟩ :=
        takes_of_parameterStep rest free calm (.comma _ _) step
      · cases same
      · cases same
        obtain ⟨none, row', added, each⟩ := ih (fun x hx => all x (List.mem_cons_of_mem p hx))
          (by simpa using enough) left h
        refine ⟨none, row' ++ [.token (.mark ',' false e'), q], by rw [added, row]; simp, ?_⟩
        obtain ⟨_, _, _, _, rfl, own⟩ := named
        rw [List.reverse_append]
        exact .cons ⟨_, _, _, _, rfl, own⟩ each

def receiverPhrase (r : Receiver) : Phrase := .node .receiver ((receiverParts r).map .token)

theorem parameterStep_receiver_run (r : Receiver) (first : c.row = [])
    (rest : c.rest = RenderContext.receiver (some r) ++ us) :
    parameterStep read c = .ok (true, { c with
      rest := us, row := [.token (.mark ',' false Extent.nowhere), receiverPhrase r] }) := by
  have some : c.rest.isEmpty = false := by rw [rest]; cases r <;> rfl
  have noAttribute : Ahead.mark "#" c.rest = false := by rw [rest]; cases r <;> rfl
  have noDots : Ahead.mark "..." c.rest = false := by rw [rest]; cases r <;> rfl
  have attributes : collect (outerAttributes read) c = .ok (((), []), c) :=
    collect_eq_ok.mpr ⟨_, outerAttributes_run noAttribute, rfl, rfl⟩
  have atStart : atEnd c = .ok (false, c) := by rw [← some]; rfl
  rw [parameterStep, run_bind_of_ok atStart]
  refine run_bind_eq_ok.mpr ⟨c, c, rfl, ?_⟩
  rw [run_bind_of_ok attributes]
  refine run_bind_eq_ok.mpr ⟨_, _, peek_run _, ?_⟩
  simp only [noDots, Bool.false_eq_true, if_false]
  rw [run_bind_of_ok (parameter_receiver_run r rest), first]
  rfl

theorem length_le_commaSeparated (ps : List (String × List Token)) :
    ps.length ≤ (commaSeparated (ps.map inputTokens)).length := by
  induction ps with
  | nil => exact Nat.zero_le _
  | cons p ps ih =>
    cases ps with
    | nil =>
      simp [commaSeparated, inputTokens, ident]
    | cons p' ps =>
      rw [List.map_cons, List.map_cons, commaSeparated_cons_cons, ← List.map_cons]
      simp only [List.length_append, List.length_cons] at ih ⊢
      omega

/-- What has been read when the parameters behind a receiver begin. -/
def receiverRow : Option Receiver → List Phrase
  | none => []
  | some r => [.token (.mark ',' false Extent.nowhere), receiverPhrase r]

theorem parameters_eq_repeatUpTo {r : Option Receiver} {ps : List (String × List Token)}
    (read : Reader) (first : c.row = [])
    (rest : c.rest = RenderContext.receiver r ++ commaSeparated (ps.map inputTokens)) :
    ∃ m, ps.length < m ∧ parameters read c = repeatUpTo (parameterStep read) m { c with
      rest := commaSeparated (ps.map inputTokens), row := receiverRow r } := by
  have length := length_le_commaSeparated ps
  have run : parameters read c = repeatUpTo (parameterStep read) (c.rest.length + 1) c := rfl
  cases r with
  | none =>
    refine ⟨c.rest.length + 1, ?_, ?_⟩
    · rw [rest, List.length_append]
      omega
    · rcases c with ⟨_, inside, leftover, _⟩
      cases rest
      cases first
      exact run
  | some r =>
    have step : parameterStep read c = _ := parameterStep_receiver_run r first rest
    refine ⟨c.rest.length, ?_, ?_⟩
    · have start : 0 < (RenderContext.receiver (some r)).length := by cases r <;> decide
      rw [rest, List.length_append]
      omega
    · rw [run, repeatUpTo, run_bind_of_ok step]
      rfl

/-- All parameters of a function are read with their names, behind its receiver. -/
theorem parameters_eq_ok {n : Nat} {r : Option Receiver} {ps : List (String × List Token)}
    {u : Unit} (all : ∀ p ∈ ps, p.1 ∉ reservedWords ∧ AreCalm p.2) (first : c.row = [])
    (rest : c.rest = RenderContext.receiver r ++ commaSeparated (ps.map inputTokens))
    (h : parameters (reader (n + 1)) c = .ok (u, d)) :
    d.rest = [] ∧ ∃ qs, Phrase.rolesOf d.row.reverse = (r.map receiverPhrase).toList ++ qs ∧
      List.Forall₂ IsInputOf (ps.map Prod.fst) qs := by
  obtain ⟨m, enough, steps⟩ := parameters_eq_repeatUpTo (reader (n + 1)) first rest
  rw [steps] at h
  obtain ⟨none, row, added, each⟩ := repeat_parameterStep all enough rfl h
  refine ⟨none, _, ?_, each⟩
  rw [added, List.reverse_append]
  cases r <;> rfl

end FormulaBinding.Grammar
