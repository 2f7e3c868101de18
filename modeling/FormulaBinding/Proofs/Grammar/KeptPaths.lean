import FormulaBinding.Proofs.Grammar.Kept
import FormulaBinding.Proofs.Grammar.PathEnds

/-!
# Paths that are written as they are read

A path whose segments have arguments that are written as they are read is written so, too: lifetimes
stand in front of the other arguments, so that none of them moves.
-/

namespace FormulaBinding.Grammar
open FormulaBinding.Parser FormulaBinding.Token

variable {k : Nat} {S T : List Token} {w : String} {e : List Token → Prop}
  {φ : List Phrase → Prop}

/-- A loop that may go on often enough. -/
theorem Yields.repeatWhile {step : Reader → Parser Bool} (h : ∀ m > S.length,
    Reads k (fun read => repeatUpTo (step read) m) e φ S) :
    Reads k (fun read => Parser.repeatWhile (step read)) e φ S := by
  refine ⟨fun {n ts us c} enough spells ends rest => ?_⟩
  have long : c.rest.length + 1 > S.length := by
    rw [rest, List.length_append, spells.length_eq]
    omega
  obtain ⟨qs, hold, kept, run⟩ := (h _ long).run enough spells ends rest
  exact ⟨qs, hold, kept, run_bind_eq_ok.mpr ⟨c, c, rfl, run⟩⟩

theorem Yields.loop {step : Reader → Parser Bool} (h : Yields false k step e φ S) {m : Nat}
    (some : m > S.length) : Reads k (fun read => repeatUpTo (step read) m) e φ S := by
  refine ⟨fun {n ts us c} enough spells ends rest => ?_⟩
  obtain ⟨m, rfl⟩ := Nat.exists_eq_succ_of_ne_zero (Nat.ne_zero_of_lt some)
  obtain ⟨qs, hold, kept, run⟩ := h.run enough spells ends rest
  exact ⟨qs, hold, kept, run_bind_eq_ok.mpr ⟨false, _, run, rfl⟩⟩

theorem Yields.loop_append {step : Reader → Parser Bool} {e' : List Token → Prop}
    {ψ χ : List Phrase → Prop} (h : Yields true k step e φ S) (long : 0 < S.length)
    (others : ∀ m > T.length, Reads k (fun read => repeatUpTo (step read) m) e' ψ T)
    (leaves : ∀ {ts us}, Respells ts T → e' us → e (ts ++ us))
    (combine : ∀ {qs rs}, φ qs → ψ rs → χ (qs ++ rs)) {m : Nat} (some : m > (S ++ T).length) :
    Reads k (fun read => repeatUpTo (step read) m) e' χ (S ++ T) := by
  refine ⟨fun {n ts us c} enough spells ends rest => ?_⟩
  obtain ⟨m, rfl⟩ := Nat.exists_eq_succ_of_ne_zero (Nat.ne_zero_of_lt some)
  obtain ⟨ts, vs, rfl, first, second⟩ := spells.exists_of_append
  rw [List.append_assoc] at rest
  simp only [sizeList_append] at enough
  simp only [List.length_append] at some
  obtain ⟨qs, hold, kept, run⟩ := h.run (n := n) (by omega) first
    (leaves second ends) rest
  obtain ⟨rs, hold', kept', later⟩ := (others m (by omega)).run (n := n)
    (c := { c with rest := vs ++ us, row := qs.reverse ++ c.row }) (by omega) second ends
    rfl
  exact ⟨qs ++ rs, combine hold hold', kept.append kept',
    run_bind_eq_ok.mpr ⟨true, _, run, later.trans (by simp)⟩⟩

/-- A step that ends its loop and reads nothing. -/
theorem yields_nil {step : Reader → Parser Bool} (stops : ∀ {read : Reader} {c : Cursor},
    e c.rest → step read c = .ok (false, c)) : Yields false k step e (· = []) [] := by
  refine ⟨fun {n ts us c} _ spells ends rest => ?_⟩
  rcases c with ⟨_, inside, leftover, row⟩
  cases spells
  cases rest
  exact ⟨[], rfl, .nil, stops (c := ⟨us, inside, leftover, row⟩) ends⟩

/-- Arguments with commas between them, lifetimes first; none may be a lifetime if `l` is false. -/
inductive IsArgumentRow : Bool → List Phrase → Prop
  | nil {l : Bool} : IsArgumentRow l []
  | last {l : Bool} {q : Phrase} (other : q.isMark ',' = false)
    (order : q.is .lifetimeArgument = true → l = true) : IsArgumentRow l [q]
  | more {l : Bool} {q comma : Phrase} {qs : List Phrase} (other : q.isMark ',' = false)
    (order : q.is .lifetimeArgument = true → l = true) (mark : comma.isMark ',' = true)
    (rest : IsArgumentRow (l && q.is .lifetimeArgument) qs) : IsArgumentRow l (q :: comma :: qs)

/-- The pairs of arguments and commas, lifetimes first. -/
theorem IsArgumentRow.exists_pairs {l : Bool} {qs : List Phrase} (h : IsArgumentRow l qs) :
    ∃ leading others : List (Phrase × Option Phrase), pairArguments qs = leading ++ others ∧
      (∀ x ∈ leading, x.1.is .lifetimeArgument = true) ∧
      (∀ x ∈ others, x.1.is .lifetimeArgument = false) ∧ (l = false → leading = []) ∧
      (others = [] ∨ ∀ x ∈ leading, x.2.isSome = true) ∧
      (leading ++ others).flatMap (fun x => x.1 :: x.2.toList) = qs := by
  induction h with
  | nil => exact ⟨[], [], rfl, nofun, nofun, fun _ => rfl, .inl rfl, rfl⟩
  | @last l q other order =>
    cases first : q.is .lifetimeArgument with
    | false => exact ⟨[], [(q, none)], rfl, nofun, by simpa using first, fun _ => rfl, .inr nofun, rfl⟩
    | true =>
      exact ⟨[(q, none)], [], rfl, by simpa using first, nofun, by simp [order first], .inl rfl, rfl⟩
  | @more l q comma qs other order mark rest ih =>
    obtain ⟨leading, others, pairs, all, none, empty, apart, flat⟩ := ih
    have pairs : pairArguments (q :: comma :: qs) = (q, some comma) :: (leading ++ others) := by
      rw [pairArguments, if_pos mark, pairs]
    cases first : q.is .lifetimeArgument with
    | false =>
      rw [first, Bool.and_false] at empty
      cases empty rfl
      refine ⟨[], (q, some comma) :: others, pairs, nofun, ?_, fun _ => rfl, .inr nofun, ?_⟩
      · simpa [first] using none
      · simpa using flat
    | true =>
      refine ⟨(q, some comma) :: leading, others, pairs, ?_, none, by simp [order first],
        apart.imp_right fun h => ?_, ?_⟩
      · simpa [first] using all
      · simpa using h
      · simpa using flat

theorem IsArgumentRow.inOrder_eq {qs : List Phrase} (h : IsArgumentRow true qs) :
    inOrder (Phrase.is .lifetimeArgument) (pairArguments qs) = qs := by
  obtain ⟨leading, others, pairs, all, none, -, apart, flat⟩ := h.exists_pairs
  have split : (leading ++ others).partition (Phrase.is .lifetimeArgument ·.1) =
      (leading, others) := by
    rw [List.partition_eq_filter_filter, List.filter_append, List.filter_append,
      List.filter_eq_self.mpr all, List.filter_eq_nil_iff.mpr fun x mem => by simp [none x mem],
      List.filter_eq_nil_iff.mpr fun x mem => by simp [all x mem],
      List.filter_eq_self.mpr fun x mem => by simp [none x mem]]
    simp
  have separated : (leading.getLast?.all (·.2.isSome) || others.isEmpty) = true := by
    rcases apart with rfl | commas
    · simp
    · cases last : leading.getLast? with
      | none => rfl
      | some x => simp [commas x (List.mem_of_getLast? last)]
  rw [inOrder, pairs, split]
  simp only [separated, if_true, List.append_nil]
  rw [← List.flatMap_append]
  exact flat

theorem Yields.reorder {p : Reader → Parser Unit} (h : Reads k p e (IsArgumentRow true) S) :
    Reads k (fun read => Grammar.reorder (Phrase.is .lifetimeArgument) (p read)) e
      Whatever S := by
  refine ⟨fun {n ts us c} enough spells ends rest => ?_⟩
  obtain ⟨qs, row, kept, run⟩ := h.run (c := { c with row := [] }) enough spells ends rest
  refine ⟨qs, trivial, kept, run_bind_eq_ok.mpr ⟨((), qs), _,
    collect_eq_ok.mpr ⟨_, run, by simp, rfl⟩, ?_⟩⟩
  dsimp only
  rw [row.inOrder_eq]
  exact run_bind_eq_ok.mpr ⟨PUnit.unit, _, forIn_emit_eq_ok.mpr rfl, rfl⟩

/-- Reads an argument and the comma behind it, and says whether there was one. -/
def argumentStep (read : Reader) : Parser Bool := do
  if ← peek (Ahead.mark ">") then return false
  genericArgument read
  if ← peek (Ahead.mark ">") then return false
  mark ","
  return true

/-- Whether arguments end or go on in front of tokens. -/
def EndsArgument (us : List Token) : Prop := Ahead.mark ">" us = true ∨ Ahead.mark "," us = true

def closingMarks : List String := [">", "=", "<="]

/-- Whether tokens are read as an argument, a lifetime if `l`. -/
structure ReadsArgument (l : Bool) (S : List Token) : Prop where
  starts : ∀ m ∈ closingMarks, ∀ {ts}, Respells ts S → ∀ us, Ahead.mark m (ts ++ us) = false
  length : 0 < S.length
  reads : Reads 1 genericArgument EndsArgument
    (fun qs => ∃ q, qs = [q] ∧ q.isMark ',' = false ∧ q.is .lifetimeArgument = l) S

/-- Whether tokens are read as arguments up to the bracket behind them. -/
structure ReadsArguments (l : Bool) (S : List Token) : Prop where
  starts : ∀ m ∈ closingMarks.tail, ∀ {ts us}, Respells ts S → Ahead.mark ">" us = true →
    Ahead.mark m (ts ++ us) = false
  reads : ∀ m > S.length, Reads 1 (fun read => repeatUpTo (argumentStep read) m)
    (Ahead.mark ">" · = true) (IsArgumentRow l) S

theorem mark_of_ends {us : List Token} (ends : Ahead.mark ">" us = true) {m : String}
    (mem : m ∈ closingMarks.tail) : Ahead.mark m us = false := by
  obtain ⟨j, e, us, rfl⟩ := (ahead_mark_eq_true '>' rfl).mp ends
  simp only [closingMarks, List.tail_cons, List.mem_cons, List.not_mem_nil, or_false] at mem
  rcases mem with rfl | rfl <;> rfl

theorem readsArguments_nil (l : Bool) : ReadsArguments l [] := by
  refine ⟨fun m mem ts us spells ends => ?_, fun m some => ?_⟩
  · cases spells
    exact mark_of_ends ends mem
  · have stops : Yields false 1 argumentStep (Ahead.mark ">" · = true) (· = []) [] :=
      yields_nil fun {read c} ends => by
        refine run_bind_eq_ok.mpr ⟨_, _, peek_run _, ?_⟩
        rw [ends]
        rfl
    refine (stops.loop some).mono (Nat.le_refl _) (fun _ => id) ?_
    rintro _ rfl
    exact .nil

variable {l l' : Bool}

theorem ReadsArgument.last (h : ReadsArgument l S) : Yields false 1 argumentStep
    (Ahead.mark ">" · = true)
    (fun qs => ∃ q, qs = [q] ∧ q.isMark ',' = false ∧ q.is .lifetimeArgument = l) S := by
  refine ⟨fun {n ts us c} enough spells ends rest => ?_⟩
  obtain ⟨qs, hold, kept, run⟩ := h.reads.run enough spells (.inl ends) rest
  refine ⟨qs, hold, kept, run_bind_eq_ok.mpr ⟨_, _, peek_run _, ?_⟩⟩
  rw [rest, h.starts ">" (by decide) spells]
  refine run_bind_eq_ok.mpr ⟨_, _, run, run_bind_eq_ok.mpr ⟨_, _, peek_run _, ?_⟩⟩
  rw [ends]
  rfl

theorem ReadsArgument.more (h : ReadsArgument l S) : Yields true 1 argumentStep Whatever
    (fun qs => ∃ q comma, qs = [q, comma] ∧ q.isMark ',' = false ∧ q.is .lifetimeArgument = l ∧
      comma.isMark ',' = true) (S ++ op ",") := by
  refine ⟨fun {n ts us c} enough spells _ rest => ?_⟩
  obtain ⟨ts, _, rfl, written, comma⟩ := spells.exists_of_append
  rw [List.append_assoc] at rest
  simp only [sizeList_append] at enough
  cases comma with
  | @mark _ j _ ext _ _ _ _ last =>
    cases last
    obtain ⟨_, ⟨q, rfl, other, role⟩, kept, run⟩ :=
      h.reads.run (n := n) (by omega) written (.inr rfl) rest
    have mark : AreKept [.token (.mark ',' false ext)] (op ",") :=
      .token (.mark id .nil) (.mark id .nil)
    refine ⟨[q, .token (.mark ',' false ext)], ⟨q, _, rfl, other, role, rfl⟩, kept.append mark,
      run_bind_eq_ok.mpr ⟨_, _, peek_run _, ?_⟩⟩
    rw [rest, h.starts ">" (by decide) written]
    exact run_bind_eq_ok.mpr ⟨_, _, run, run_bind_eq_ok.mpr ⟨_, _, peek_run _, rfl⟩⟩

theorem ReadsArgument.readsArguments (h : ReadsArgument l' S) (order : l' = true → l = true) :
    ReadsArguments l S := by
  refine ⟨fun m mem ts us spells _ => h.starts m (List.mem_of_mem_tail mem) spells us,
    fun m some => (h.last.loop some).mono (Nat.le_refl _) (fun _ => id) ?_⟩
  rintro _ ⟨q, rfl, other, role⟩
  exact .last other fun first => order (role.symm.trans first)

theorem ReadsArgument.readsArguments_append (h : ReadsArgument l' S) (order : l' = true → l = true)
    (others : ReadsArguments l' T) : ReadsArguments l (S ++ op "," ++ T) := by
  refine ⟨fun m mem ts us spells _ => ?_, fun m some => h.more.loop_append (by simp [op, markList])
    others.reads (fun _ _ => trivial) ?_ some⟩
  · rw [List.append_assoc] at spells
    obtain ⟨ts, vs, rfl, written, -⟩ := spells.exists_of_append
    rw [List.append_assoc]
    exact h.starts m (List.mem_of_mem_tail mem) written _
  · rintro _ rs ⟨q, comma, rfl, other, role, mark⟩ row
    refine .more other (fun first => order (role.symm.trans first)) mark ?_
    cases l' with
    | false => rw [role, Bool.and_false]; exact row
    | true => rw [role, order rfl]; exact row

theorem ReadsArguments.genericArguments (h : ReadsArguments true S) :
    Reads 1 Grammar.genericArguments Whatever
      (fun qs => ∃ parts, Whatever parts ∧ qs = [.node .genericArguments parts])
      (op "<" ++ (S ++ op ">")) := by
  have closing : Reads 1 (fun read => Grammar.reorder (Phrase.is .lifetimeArgument)
      (Parser.repeatWhile (argumentStep read)) >>= fun _ => Parser.mark ">") Whatever Whatever
      (S ++ op ">") := by
    refine (Yields.reorder (Yields.repeatWhile h.reads)).bind (k := 1) (l := 0) (Reads.mark '>' rfl) ?_
      (fun _ _ => trivial) (by omega) (by omega)
    intro ts us spells _
    cases spells with
    | mark _ _ => rfl
  have opening : Reads 1 (fun read => Parser.mark "<" >>= fun _ => Grammar.reorder
      (Phrase.is .lifetimeArgument) (Parser.repeatWhile (argumentStep read)) >>= fun _ =>
        Parser.mark ">") Whatever Whatever (op "<" ++ (S ++ op ">")) :=
    (Reads.mark '<' rfl).bind (k := 0) closing (fun _ _ => trivial) (fun _ _ => trivial)
      (by omega) (by omega)
  have whole := (Reads.noMark "::").bind (k := 0) (m := 1) (χ := Whatever) opening ?_
    (fun _ _ => trivial) (by omega) (by omega)
  · exact whole.node (r := .genericArguments) (by decide) (by decide)
  · intro ts us spells _
    cases spells with
    | mark _ _ => rfl

/-- Whether tokens do not bring a number sign to the front. -/
def NoHash (S : List Token) : Prop :=
  ∀ {ts us}, Respells ts S → Ahead.mark "#" us = false → Ahead.mark "#" (ts ++ us) = false

theorem noHash_nil : NoHash [] := by
  intro ts us spells none
  cases spells
  exact none

theorem noHash_less : NoHash (op "<" ++ S) := by
  intro ts us spells _
  have spells : Respells ts (.mark '<' false Extent.nowhere :: S) := spells
  cases spells
  rfl

theorem noHash_colons : NoHash (op "::" ++ S) := by
  intro ts us spells _
  have spells : Respells ts (.mark ':' true Extent.nowhere :: .mark ':' false Extent.nowhere :: S) :=
    spells
  cases spells
  rfl

theorem NoHash.append (h : NoHash S) (h' : NoHash T) : NoHash (S ++ T) := by
  intro ts us spells none
  obtain ⟨ts, vs, rfl, first, second⟩ := spells.exists_of_append
  rw [List.append_assoc]
  exact h first (h' second none)

/-- Whether tokens are read as a segment of a path of a type. -/
structure ReadsSegment (S : List Token) : Prop where
  starts : ∃ w T, S = .name w Extent.nowhere :: T ∧ NoHash T
  reads : Reads 0 (fun read => segment read false) (argumentsAhead false · = false) Whatever S

theorem readsSegment_word (h : w = "Self" ∨ IsSegment w) : ReadsSegment (ident w) := by
  refine ⟨⟨w, [], rfl, noHash_nil⟩, ⟨fun {n ts us c} _ spells ends rest => ?_⟩⟩
  cases spells with
  | @name _ x _ _ _ after =>
    cases after
    have kept : AreKept [.node .segment [.token (.name w x)]] (ident w) :=
      (AreKept.token (.name .nil) (.name .nil)).node (by decide) (by decide)
    refine ⟨_, trivial, kept, segment_eq_ok.mpr ⟨w, x, us,
      ⟨us, c.inside, c.leftover, [.token (.name w x)]⟩, rest, rfl, ?_⟩⟩
    by_cases special : w ∈ pathWords
    · exact .inl ⟨special, rfl⟩
    · exact .inr ⟨special, h.imp_right (·.resolve_right special),
        furtherArguments_eq_ok.mpr (.inl ⟨ends, rfl⟩)⟩

theorem ReadsArguments.argumentsAhead_eq {l : Bool} {ts us : List Token} (h : ReadsArguments l S)
    (spells : Respells ts (op "<" ++ (S ++ op ">"))) : argumentsAhead false (ts ++ us) = true := by
  have spells : Respells ts (.mark '<' false Extent.nowhere :: (S ++ op ">")) := spells
  cases spells with
  | @mark _ j _ e _ vs _ _ after =>
    obtain ⟨ts, vs, rfl, inside, last⟩ := after.exists_of_append
    have ends : Ahead.mark ">" (vs ++ us) = true := by
      cases last with
      | mark _ _ => rfl
    have equals := h.starts "=" (by decide) inside ends
    have lessEquals := h.starts "<=" (by decide) inside ends
    have none (m : String) (x : Char) (s : List Char) (chars : m.toList = '<' :: x :: s)
        (m' : String) (tail : m'.toList = x :: s) (h : Ahead.mark m' (ts ++ (vs ++ us)) = false) :
        Ahead.mark m (.mark '<' j e :: (ts ++ (vs ++ us))) = false := by
      rw [Ahead.mark, tail] at h
      rw [Ahead.mark, chars, Ahead.markChars, h, Bool.and_false]
      exact List.cons_ne_nil x s
    have less : Ahead.mark "<" (.mark '<' j e :: (ts ++ (vs ++ us))) = true := rfl
    rw [List.cons_append, List.append_assoc, argumentsAhead]
    have first := none "<=" '=' [] rfl "=" rfl equals
    have second := none "<<=" '<' ['='] rfl "<=" rfl lessEquals
    rw [less, first, second]
    rfl

theorem readsSegment_arguments (free : w = "Self" ∨ w ∉ reservedWords) (h : ReadsArguments true S) :
    ReadsSegment (ident w ++ (op "<" ++ (S ++ op ">"))) := by
  refine ⟨⟨w, _, rfl, noHash_less⟩, ⟨fun {n ts us c} enough spells ends rest => ?_⟩⟩
  have other : w ∉ pathWords := by
    rcases free with rfl | free
    · decide
    · have reserved : ∀ v ∈ pathWords, v ∈ reservedWords := by decide
      exact fun mem => free (reserved w mem)
  obtain ⟨_, vs, rfl, word, inside⟩ := spells.exists_of_append
  cases word with
  | @name _ x _ _ _ after =>
    cases after
    obtain ⟨_, ⟨parts, -, rfl⟩, kept, run⟩ := h.genericArguments.run (n := n)
      (c := ⟨vs ++ us, c.inside, c.leftover, [.token (.name w x)]⟩) (by
        simp only [ident, sizeList_append, sizeList, size] at enough ⊢
        omega) inside trivial rfl
    have token : AreKept [.token (.name w x)] (ident w) := .token (.name .nil) (.name .nil)
    exact ⟨_, trivial, (token.append kept).node (k := .segment) (by decide) (by decide),
      segment_eq_ok.mpr ⟨w, x, vs ++ us, _, rest, rfl, .inr ⟨other, free,
        furtherArguments_eq_ok.mpr (.inr ⟨h.argumentsAhead_eq inside, run⟩)⟩⟩⟩

/-- Whether tokens are read as further segments of a path, where the path ends behind them. -/
structure ReadsFurther (S : List Token) : Prop where
  noHash : NoHash S
  starts : ∀ {ts us}, Respells ts S → EndsPath false us → argumentsAhead false (ts ++ us) = false
  reads : ∀ m > S.length, Reads 0 (fun read => repeatUpTo (furtherSegment read false) m)
    (EndsPath false) Whatever S

theorem readsFurther_nil : ReadsFurther [] := by
  refine ⟨noHash_nil, fun spells ends => ?_, fun m some => ?_⟩
  · cases spells
    exact ends.arguments
  · have stops : Yields false 0 (fun read => furtherSegment read false) (EndsPath false) (· = []) [] :=
      yields_nil fun ends => furtherSegment_eq_ok.mpr (.inr ⟨rfl, EndsPath.pathGoesOn ends, rfl⟩)
    exact (stops.loop some).mono (Nat.le_refl _) (fun _ => id) fun _ _ => trivial

/-- Whether tokens are read as a double colon and a segment. -/
theorem ReadsSegment.link (h : ReadsSegment S) :
    Reads 0 (fun read => link read false) (argumentsAhead false · = false) Whatever (op "::" ++ S) :=
  (Reads.marks ':' ':' rfl (k := 0)).bind h.reads (fun _ _ => trivial) (fun _ _ => trivial) (by omega) (by omega)

theorem ReadsFurther.cons (h : ReadsSegment S) (others : ReadsFurther T) :
    ReadsFurther ((op "::" ++ S) ++ T) := by
  refine ⟨noHash_colons.append others.noHash, fun spells ends => ?_, fun m some => ?_⟩
  · obtain ⟨w, S, rfl, -⟩ := h.starts
    have spells : Respells _ (.mark ':' true Extent.nowhere :: .mark ':' false Extent.nowhere ::
      .name w Extent.nowhere :: (S ++ T)) := spells
    cases spells with
    | mark joined spells =>
      cases spells with
      | mark _ spells =>
        cases spells with
        | name =>
          cases joined rfl
          rfl
  · have step : Yields true 0 (fun read => furtherSegment read false)
        (argumentsAhead false · = false) Whatever (op "::" ++ S) := by
      refine ⟨fun {n ts us c} enough spells ends rest => ?_⟩
      obtain ⟨qs, hold, kept, run⟩ := h.link.run enough spells ends rest
      exact ⟨qs, hold, kept, furtherSegment_eq_ok.mpr (.inl ⟨rfl, run⟩)⟩
    exact step.loop_append (χ := Whatever) (by simp [op, markList]) others.reads others.starts
      (fun _ _ => trivial) some

abbrev ReadsPath (S : List Token) : Prop :=
  Reads 0 (fun read => path read false) (EndsPath false)
    (fun qs => ∃ parts, Whatever parts ∧ qs = [.node .path parts]) S

theorem readsPath_of_first {p : Reader → Parser Unit}
    (first : Reads 0 p (argumentsAhead false · = false) Whatever S) (others : ReadsFurther T)
    (among : ∀ {read : Reader} {c d : Cursor}, p read c = .ok ((), d) →
      link read false c = .ok ((), d) ∨ segment read false c = .ok ((), d)) : ReadsPath (S ++ T) := by
  refine Yields.node ⟨fun {n ts us c} enough spells ends rest => ?_⟩ (by decide) (by decide)
  obtain ⟨ts, vs, rfl, spells, spells'⟩ := spells.exists_of_append
  rw [List.append_assoc] at rest
  simp only [sizeList_append] at enough
  obtain ⟨qs, -, kept, run⟩ := first.run (n := n) (by omega) spells
    (others.starts spells' ends) rest
  obtain ⟨rs, -, kept', later⟩ := (others.reads ((vs ++ us).length + 1) (by
      rw [List.length_append, spells'.length_eq]
      omega)).run (n := n) (c := { c with rest := vs ++ us, row := qs.reverse ++ c.row })
    (by omega) spells' ends rfl
  exact ⟨qs ++ rs, trivial, kept.append kept', pathParts_eq_ok.mpr
    ⟨_, among run, later.trans (by simp)⟩⟩

theorem readsPath_segments (h : ReadsSegment S) (others : ReadsFurther T) : ReadsPath (S ++ T) :=
  readsPath_of_first h.reads others .inr

theorem readsPath_rooted (h : ReadsSegment S) (others : ReadsFurther T) :
    ReadsPath ((op "::" ++ S) ++ T) :=
  readsPath_of_first h.link others .inl

end FormulaBinding.Grammar
