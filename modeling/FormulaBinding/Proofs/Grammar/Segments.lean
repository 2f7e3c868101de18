import FormulaBinding.Proofs.Grammar.Depth
import FormulaBinding.Proofs.Grammar.Paths

/-!
# Paths with a further segment

A segment ends in its word or in the closing bracket of its arguments, and whatever comes behind it
does not change how it is read, unless arguments start there. So a double colon and a word behind
the tokens of a path are read as a further segment, and behind other tokens they make no path.
-/

namespace FormulaBinding.Grammar

open FormulaBinding.Parser FormulaBinding.Token

-- A rule has more steps than the search for instances looks at by default.
set_option synthInstance.maxSize 1000000

/-! ## The tokens of a segment -/

/-- The tokens of a segment, the last one apart: a word, or a word with arguments. -/
inductive AreSegment : List Token → Token → Prop
  | word (w : String) (e : Extent) : AreSegment [] (.name w e)
  | arguments (w : String) (e : Extent) (us : List Token) (j : Bool) (e' : Extent) :
      AreSegment (.name w e :: us) (.mark '>' j e')

/-- Whether two tokens are the same, or the same mark but for what it is joined to. -/
inductive Alike : Token → Token → Prop
  | refl (t : Token) : Alike t t
  | mark (x : Char) (j j' : Bool) (e : Extent) : Alike (.mark x j e) (.mark x j' e)

variable {read : Reader} {inExpr : Bool} {a b n : ℕ} {c d : Cursor} {u : Unit}
variable {us vs tail : List Token}

theorem ahead_oneOf (ws : List String) (w : String) (e : Extent) (ts : List Token) :
    Ahead.oneOf ws (.name w e :: ts) = true ↔ w ∈ ws :=
  List.contains_iff_mem

theorem ahead_word (v w : String) (e : Extent) (ts : List Token) :
    Ahead.word v (.name w e :: ts) = true ↔ w = v :=
  beq_iff_eq

/-- Reads the arguments of a segment if they are ahead. -/
def furtherArguments (read : Reader) (inExpr : Bool) : Parser Unit := do
  if ← peek (argumentsAhead inExpr) then genericArguments read

theorem furtherArguments_eq_ok : furtherArguments read inExpr c = .ok (u, d) ↔
    argumentsAhead inExpr c.rest = false ∧ d = c ∨
      argumentsAhead inExpr c.rest = true ∧ genericArguments read c = .ok (u, d) := by
  rw [furtherArguments, run_bind_eq_ok]
  constructor
  · rintro ⟨seen, _, peeked, run⟩
    cases peeked
    split at run
    · rename_i seen
      exact .inr ⟨seen, run⟩
    · rename_i none
      cases run
      exact .inl ⟨Bool.eq_false_iff.mpr none, rfl⟩
  · rintro (⟨none, rfl⟩ | ⟨seen, run⟩)
    · refine ⟨_, _, peek_run _, ?_⟩
      rw [none]
      rfl
    · refine ⟨_, _, peek_run _, ?_⟩
      rw [seen]
      exact run

/-- A segment is a word, which may have arguments if it is no keyword but `Self`. -/
theorem segment_eq_ok : segment read inExpr c = .ok (u, d) ↔ ∃ w e ts x,
    c.rest = .name w e :: ts ∧ d = { x with row := .node .segment x.row.reverse :: c.row } ∧
      (w ∈ pathWords ∧ x = { c with rest := ts, row := [.token (.name w e)] } ∨
        w ∉ pathWords ∧ (w = "Self" ∨ w ∉ reservedWords) ∧ furtherArguments read inExpr
          { c with rest := ts, row := [.token (.name w e)] } = .ok (u, x)) := by
  constructor
  · intro h
    obtain ⟨x, run, rfl⟩ := node_eq_ok.mp h
    obtain ⟨_, _, peeked, run⟩ := run_bind_eq_ok.mp run
    cases peeked
    split at run
    · rename_i special
      obtain ⟨w, e, ts, rest, rfl⟩ := anyName_eq_ok.mp run
      rw [show c.rest = _ from rest, ahead_oneOf] at special
      exact ⟨w, e, ts, _, rest, rfl, .inl ⟨special, rfl⟩⟩
    · rename_i other
      obtain ⟨_, _, peeked, run⟩ := run_bind_eq_ok.mp run
      cases peeked
      split at run
      · rename_i self
        obtain ⟨_, y, word, run⟩ := run_bind_eq_ok.mp run
        obtain ⟨w, e, ts, rest, rfl⟩ := anyName_eq_ok.mp word
        rw [show c.rest = _ from rest, ahead_oneOf] at other
        rw [show c.rest = _ from rest, ahead_word] at self
        exact ⟨w, e, ts, x, rest, rfl, .inr ⟨other, .inl self, run⟩⟩
      · obtain ⟨_, y, word, run⟩ := run_bind_eq_ok.mp run
        obtain ⟨w, e, ts, rest, free, rfl⟩ := name_eq_ok.mp word
        rw [show c.rest = _ from rest, ahead_oneOf] at other
        exact ⟨w, e, ts, x, rest, rfl, .inr ⟨other, .inr free, run⟩⟩
  · rcases c with ⟨_, inside, leftover, row⟩
    rintro ⟨w, e, ts, x, rfl, rfl, ⟨special, rfl⟩ | ⟨other, free, run⟩⟩
    all_goals
      refine node_eq_ok.mpr ⟨_, run_bind_eq_ok.mpr ⟨_, _, peek_run _, ?_⟩, rfl⟩
    · rw [if_pos ((ahead_oneOf _ _ _ _).mpr special)]
      exact anyName_run rfl
    · rw [if_neg fun special => other ((ahead_oneOf _ _ _ _).mp special)]
      refine run_bind_eq_ok.mpr ⟨_, _, peek_run _, ?_⟩
      dsimp only
      split
      · exact run_bind_eq_ok.mpr ⟨_, _, anyName_run rfl, run⟩
      · rename_i self
        rw [ahead_word] at self
        exact run_bind_eq_ok.mpr ⟨_, _, name_run rfl (free.resolve_left self), run⟩

/-- Reads arguments in angle brackets up to the closing bracket. -/
def openArguments (read : Reader) : Parser Unit := do
  discard (mark? "::")
  mark "<"
  reorder (Phrase.is .lifetimeArgument) do
    repeatWhile do
      if ← peek (Ahead.mark ">") then return false
      genericArgument read
      if ← peek (Ahead.mark ">") then return false
      mark ","
      return true

instance [∀ nonterminal, Advances Remains (read nonterminal)] :
    Advances Remains (openArguments read) := by dsimp only [openArguments]; infer_instance

theorem genericArguments_eq : genericArguments read =
    node .genericArguments (openArguments read >>= fun _ => mark ">") := by
  simp only [genericArguments, openArguments, bind_assoc]

/-- The closing bracket is the only token of arguments that they share with what comes behind. -/
theorem genericArguments_cut (deep : 2 * n ≤ a) (deep' : 2 * n ≤ b) (few : sizeList c.rest < n)
    (h : genericArguments (reader a) c = .ok (u, d)) : ∃ us j e,
      c.rest = us ++ .mark '>' j e :: d.rest ∧ ∀ j' ts,
        genericArguments (reader b) { c with rest := us ++ .mark '>' j' e :: ts } =
          .ok (u, { d with rest := ts }) := by
  rw [genericArguments_eq] at h
  obtain ⟨x, run, rfl⟩ := node_eq_ok.mp h
  obtain ⟨_, y, opened, closed⟩ := run_bind_eq_ok.mp run
  obtain ⟨j, e, ts, rest, rfl⟩ := (mark_eq_ok '>' rfl).mp closed
  obtain ⟨us, whole⟩ := show y.rest <:+ _ from Advances.rest (R := Remains) opened
  rw [rest] at whole
  refine ⟨us, j, e, whole.symm, fun j' ts' => ?_⟩
  have : Closes (.mark '>' j e :: ts) (.mark '>' j' e :: ts') :=
    ⟨.inr ⟨j, j', e, ts, ts', rfl, rfl⟩⟩
  have := agreeInside_reader deep deep'
  have := agreeAhead_reader (v := .mark '>' j e :: ts) (w := .mark '>' j' e :: ts') (s := id)
    deep deep'
  have agrees : Agrees (.mark '>' j e :: ts) (.mark '>' j' e :: ts') id false n
      (openArguments (reader a)) (openArguments (reader b)) := by
    dsimp only [openArguments]
    infer_instance
  have fits : Fits false n us := Nat.lt_of_le_of_lt (by
    rw [← whole, sizeList_append]
    exact Nat.le_add_right _ _) few
  have alone : openArguments (reader a) { c with rest := us ++ .mark '>' j e :: ts, row := [] } =
      .ok ((), { y with rest := [] ++ .mark '>' j e :: ts }) := by
    rw [whole, List.nil_append, ← rest]
    exact opened
  have opened' := agrees.run (c := { c with row := [] }) fits alone
  rw [genericArguments_eq]
  exact node_eq_ok.mpr ⟨_, run_bind_eq_ok.mpr ⟨_, _, opened',
    (mark_eq_ok '>' rfl).mpr ⟨j', e, ts', rfl, rfl⟩⟩, rfl⟩

/-- A segment is read in the same way with other tokens behind it, if these start with arguments
where the ones before do. -/
theorem segment_cut (deep : 2 * n ≤ a) (deep' : 2 * n ≤ b) (few : sizeList c.rest < n)
    (h : segment (reader a) inExpr c = .ok (u, d)) : ∃ us t,
      c.rest = us ++ t :: d.rest ∧ AreSegment us t ∧ ∀ t' ts, Alike t t' →
        argumentsAhead inExpr ts = argumentsAhead inExpr d.rest →
          segment (reader b) inExpr { c with rest := us ++ t' :: ts } =
            .ok (u, { d with rest := ts }) := by
  obtain ⟨w, e, ts, x, rest, rfl, ⟨special, rfl⟩ | ⟨other, free, run⟩⟩ := segment_eq_ok.mp h
  · refine ⟨[], _, rest, .word w e, fun t' ts' alike _ => ?_⟩
    cases alike
    exact segment_eq_ok.mpr ⟨w, e, ts', _, rfl, rfl, .inl ⟨special, rfl⟩⟩
  · rcases furtherArguments_eq_ok.mp run with ⟨none, rfl⟩ | ⟨some, run⟩
    · refine ⟨[], _, rest, .word w e, fun t' ts' alike same => ?_⟩
      cases alike
      exact segment_eq_ok.mpr ⟨w, e, ts', _, rfl, rfl, .inr ⟨other, free,
        furtherArguments_eq_ok.mpr (.inl ⟨same.trans none, rfl⟩)⟩⟩
    · rw [rest, sizeList] at few
      obtain ⟨us, j, e', cut, again⟩ := genericArguments_cut deep deep'
        (Nat.lt_of_le_of_lt (Nat.le_add_left _ _) few) run
      dsimp only at cut
      refine ⟨.name w e :: us, _, by rw [rest, cut]; rfl, .arguments w e us j e', ?_⟩
      intro t' ts' alike _
      obtain ⟨j', rfl⟩ : ∃ j', t' = .mark '>' j' e' := by
        cases alike
        · exact ⟨j, rfl⟩
        · exact ⟨_, rfl⟩
      have : Closes (.mark '>' j e' :: x.rest) (.mark '>' j' e' :: ts') :=
        ⟨.inr ⟨j, j', e', x.rest, ts', rfl, rfl⟩⟩
      have blind : Blind (.mark '>' j e' :: x.rest) (.mark '>' j' e' :: ts')
        (argumentsAhead inExpr) := inferInstance
      refine segment_eq_ok.mpr ⟨w, e, us ++ .mark '>' j' e' :: ts', _, rfl, ?_, .inr ⟨other, free,
        furtherArguments_eq_ok.mpr (.inr ⟨?_, again j' ts'⟩)⟩⟩
      · rfl
      · rw [← blind.same us, ← cut]
        exact some

/-! ## Tokens with others behind them -/

/-- Whether `vs` consists of the tokens `us` and of `tail` behind them, where the last mark in front
of `tail` may be joined to it. -/
inductive Continued (tail : List Token) : List Token → List Token → Prop
  | nil : Continued tail [] tail
  | last (x : Char) (j j' : Bool) (e : Extent) :
      Continued tail [.mark x j e] (.mark x j' e :: tail)
  | cons {us vs : List Token} (t : Token) (others : Continued tail us vs) :
      Continued tail (t :: us) (t :: vs)

namespace Continued

theorem append_left (h : Continued tail us vs) (ts : List Token) :
    Continued tail (ts ++ us) (ts ++ vs) := by
  induction ts with
  | nil => exact h
  | cons t ts ih => exact .cons t ih

theorem cut {rest : List Token} {t : Token} (h : Continued tail (us ++ t :: rest) vs) :
    ∃ t' rest', vs = us ++ t' :: rest' ∧ Alike t t' ∧ Continued tail rest rest' := by
  induction us generalizing vs with
  | nil =>
    cases h with
    | last x j j' e => exact ⟨_, tail, rfl, .mark x j j' e, .nil⟩
    | cons _ others => exact ⟨t, _, rfl, .refl t, others⟩
  | cons x us ih =>
    generalize same : x :: us ++ t :: rest = all at h
    cases h with
    | nil => cases same
    | last => 
      obtain ⟨-, same⟩ := List.cons.inj same
      exact absurd same (by simp)
    | cons x' inner =>
      obtain ⟨rfl, rfl⟩ := List.cons.inj same
      obtain ⟨t', rest', rfl, alike, others⟩ := ih inner
      exact ⟨t', rest', rfl, alike, others⟩

theorem cut_mark {rest' : List Token} {x : Char} {j : Bool} {e : Extent}
    (h : Continued tail us (vs ++ .mark x j e :: rest')) (free : ∀ j e, .mark x j e ∉ tail) :
    ∃ j' rest, us = vs ++ .mark x j' e :: rest ∧ Continued tail rest rest' := by
  induction vs generalizing us with
  | nil =>
    cases h with
    | nil => exact absurd List.mem_cons_self (free j e)
    | last x j j' e => exact ⟨j, [], rfl, .nil⟩
    | cons _ others => exact ⟨j, _, rfl, others⟩
  | cons v vs ih =>
    generalize same : v :: vs ++ .mark x j e :: rest' = all at h
    cases h with
    | nil => exact absurd (same ▸ by simp) (free j e)
    | last =>
      obtain ⟨-, rfl⟩ := List.cons.inj same
      exact absurd (by simp) (free j e)
    | cons v' inner =>
      obtain ⟨rfl, rfl⟩ := List.cons.inj same
      obtain ⟨j', rest, rfl, others⟩ := ih inner
      exact ⟨j', rest, rfl, others⟩

theorem cut_two {t t' : Token} (h : Continued tail (t :: t' :: us) vs) (some : us ≠ []) :
    ∃ vs', vs = t :: t' :: vs' ∧ Continued tail us vs' := by
  cases h with
  | cons _ others =>
    cases others with
    | last => exact absurd rfl some
    | cons _ others => exact ⟨_, rfl, others⟩

/-- Two tokens in front of a word, where the first two of `tail` are in front of none. -/
theorem cut_two_of_name {t t' : Token} {v : String} {x : Extent}
    (h : Continued tail us (t :: t' :: .name v x :: vs)) (some : us ≠ [])
    (first : ∀ v x more, tail ≠ .name v x :: more)
    (second : ∀ t v x more, tail ≠ t :: .name v x :: more) :
    ∃ us', us = t :: t' :: us' ∧ Continued tail us' (.name v x :: vs) := by
  cases h with
  | nil => exact absurd rfl some
  | last => exact absurd rfl (second _ _ _ _)
  | cons _ others =>
    cases others with
    | nil => exact absurd rfl (second _ _ _ _)
    | last => exact absurd rfl (first _ _ _)
    | cons _ others => exact ⟨_, rfl, others⟩

end Continued

def colonName (e e' e'' : Extent) (w : String) : List Token :=
  [.mark ':' true e, .mark ':' false e', .name w e'']

namespace Continued

variable {e e' e'' : Extent} {w : String}

/-- A segment ends in front of the double colon. -/
theorem cut_segment {rest' : List Token} {t : Token}
    (h : Continued (colonName e e' e'' w) us (vs ++ t :: rest')) (segment : AreSegment vs t) :
    ∃ t' rest, us = vs ++ t' :: rest ∧ Alike t t' ∧
      Continued (colonName e e' e'' w) rest rest' := by
  cases segment with
  | word v x =>
    generalize same : [] ++ Token.name v x :: rest' = all at h
    cases h with
    | nil => cases same
    | last => cases same
    | cons t others =>
      cases same
      exact ⟨_, _, rfl, .refl _, others⟩
  | arguments v x us' j x' =>
    obtain ⟨j', rest, rfl, others⟩ := h.cut_mark (by simp [colonName])
    exact ⟨_, rest, rfl, .mark '>' j j' x', others⟩

theorem markChars_eq {cs : List Char} (h : Continued (colonName e e' e'' w) us vs)
    (some : cs ≠ []) (free : ':' ∉ cs) : Ahead.markChars cs vs = Ahead.markChars cs us := by
  induction h generalizing cs with
  | nil =>
    obtain ⟨x, cs, rfl⟩ := List.exists_cons_of_ne_nil some
    have other : x ≠ ':' := fun same => free (by rw [same]; exact List.mem_cons_self)
    cases cs <;> simp [Ahead.markChars, colonName, other]
  | last y j j' e =>
    obtain ⟨x, cs, rfl⟩ := List.exists_cons_of_ne_nil some
    cases cs with
    | nil => rfl
    | cons x' cs =>
      have other : x' ≠ ':' := fun same => free (by simp [same])
      cases cs <;> simp [Ahead.markChars, colonName, other]
  | cons t others ih =>
    obtain ⟨x, cs, rfl⟩ := List.exists_cons_of_ne_nil some
    cases cs with
    | nil => cases t <;> rfl
    | cons x' cs =>
      have free' : ':' ∉ x' :: cs := fun mem => free (List.mem_cons_of_mem x mem)
      cases t with
      | mark y j e => exact congrArg (x == y && j && ·) (ih (List.cons_ne_nil _ _) free')
      | _ => rfl

theorem argumentsAhead_eq (h : Continued (colonName e e' e'' w) us vs) :
    argumentsAhead inExpr vs = argumentsAhead inExpr us := by
  have behind : (Ahead.mark "::" vs && Ahead.mark "<" (vs.drop 2)) =
      (Ahead.mark "::" us && Ahead.mark "<" (us.drop 2)) := by
    have none (t : Token) : Ahead.mark "::" [t] = false := by
      cases t <;> simp [Ahead.mark, Ahead.markChars]
    cases h with
    | nil => rfl
    | last x j j' e =>
      rw [none]
      exact Bool.and_false _
    | cons t others =>
      cases others with
      | nil =>
        rw [none]
        exact Bool.and_false _
      | last x j j' e => exact (Bool.and_false _).trans (Bool.and_false _).symm
      | cons t' others =>
        have ahead : Ahead.mark "<" _ = Ahead.mark "<" _ :=
          others.markChars_eq (by decide) (by decide)
        rw [List.drop_succ_cons, List.drop_succ_cons, List.drop_succ_cons, List.drop_succ_cons,
          List.drop_zero, List.drop_zero, ahead]
        cases t <;> cases t' <;> rfl
  rw [argumentsAhead, argumentsAhead, behind]
  have less : Ahead.mark "<" vs = Ahead.mark "<" us := h.markChars_eq (by decide) (by decide)
  have equal : Ahead.mark "<=" vs = Ahead.mark "<=" us := h.markChars_eq (by decide) (by decide)
  have shift : Ahead.mark "<<=" vs = Ahead.mark "<<=" us := h.markChars_eq (by decide) (by decide)
  rw [less, equal, shift]

end Continued

/-! ## Paths -/

/-- Reads a double colon and a segment. -/
def link (read : Reader) (inExpr : Bool) : Parser Unit := do
  mark "::"
  segment read inExpr

/-- Reads a further segment, and says whether there was one. -/
def furtherSegment (read : Reader) (inExpr : Bool) : Parser Bool := do
  if !(← peek pathGoesOn) then return false
  mark "::"
  segment read inExpr
  return true

theorem link_eq_ok : link read inExpr c = .ok (u, d) ↔ ∃ e j e' ts,
    c.rest = .mark ':' true e :: .mark ':' j e' :: ts ∧ segment read inExpr { c with
      rest := ts
      row := .token (.mark ':' false e') :: .token (.mark ':' true e) :: c.row } = .ok (u, d) := by
  rw [link, run_bind_eq_ok]
  constructor
  · rintro ⟨_, x, colons, run⟩
    obtain ⟨e, j, e', ts, rest, rfl⟩ := colons_eq_ok.mp colons
    exact ⟨e, j, e', ts, rest, run⟩
  · rintro ⟨e, j, e', ts, rest, run⟩
    exact ⟨(), _, colons_run rest, run⟩

theorem exists_name_of_segment (h : segment read inExpr c = .ok (u, d)) :
    ∃ w e ts, c.rest = .name w e :: ts := by
  obtain ⟨w, e, ts, x, rest, -⟩ := segment_eq_ok.mp h
  exact ⟨w, e, ts, rest⟩

theorem furtherSegment_eq_ok {t : Bool} : furtherSegment read inExpr c = .ok (t, d) ↔
    t = true ∧ link read inExpr c = .ok ((), d) ∨
      t = false ∧ pathGoesOn c.rest = false ∧ d = c := by
  rw [furtherSegment, run_bind_eq_ok]
  constructor
  · rintro ⟨goes, _, peeked, run⟩
    cases peeked
    cases goes : pathGoesOn c.rest with
    | false =>
      rw [goes] at run
      cases run
      exact .inr ⟨rfl, rfl, rfl⟩
    | true =>
      rw [goes] at run
      obtain ⟨_, x, colons, run⟩ := run_bind_eq_ok.mp run
      obtain ⟨_, y, segment, run⟩ := run_bind_eq_ok.mp run
      cases run
      exact .inl ⟨rfl, run_bind_eq_ok.mpr ⟨_, x, colons, segment⟩⟩
  · rintro (⟨rfl, run⟩ | ⟨rfl, ends, rfl⟩)
    · obtain ⟨_, x, colons, segment⟩ := run_bind_eq_ok.mp run
      obtain ⟨e, j, e', ts, rest, rfl⟩ := colons_eq_ok.mp colons
      obtain ⟨w, e'', more, name⟩ := exists_name_of_segment segment
      dsimp only at name
      have goes : pathGoesOn c.rest = true := by
        rw [rest, name]
        rfl
      refine ⟨_, _, peek_run _, ?_⟩
      rw [goes]
      exact run_bind_eq_ok.mpr ⟨_, _, colons, run_bind_eq_ok.mpr ⟨_, _, segment, rfl⟩⟩
    · refine ⟨_, _, peek_run _, ?_⟩
      rw [ends]
      rfl

theorem pathParts_eq_ok : pathParts read inExpr c = .ok (u, d) ↔
    ∃ x, (link read inExpr c = .ok ((), x) ∨ segment read inExpr c = .ok ((), x)) ∧
      repeatUpTo (furtherSegment read inExpr) (x.rest.length + 1) x = .ok (u, d) := by
  have repeats (x : Cursor) : repeatWhile (furtherSegment read inExpr) x =
      repeatUpTo (furtherSegment read inExpr) (x.rest.length + 1) x := rfl
  have parts : pathParts read inExpr = (discard (mark? "::") >>= fun _ =>
      segment read inExpr >>= fun _ => repeatWhile (furtherSegment read inExpr)) := rfl
  rw [parts, run_bind_eq_ok]
  constructor
  · rintro ⟨_, x, root, run⟩
    obtain ⟨_, y, first, run⟩ := run_bind_eq_ok.mp run
    refine ⟨y, ?_, (repeats y).symm.trans run⟩
    obtain ⟨_, root⟩ := discard_eq_ok.mp root
    obtain ⟨_, _, peeked, root⟩ := run_bind_eq_ok.mp root
    cases peeked
    split at root
    · rename_i ahead
      obtain ⟨_, _, taken, root⟩ := run_bind_eq_ok.mp root
      cases root
      have colons : mark "::" c = .ok ((), _) :=
        run_bind_eq_ok.mpr ⟨_, _, peek_run _, by rw [if_pos ahead]; exact taken⟩
      exact .inl (run_bind_eq_ok.mpr ⟨_, _, colons, first⟩)
    · cases root
      exact .inr first
  · rintro ⟨x, root | first, run⟩
    · obtain ⟨_, y, colons, first⟩ := run_bind_eq_ok.mp root
      obtain ⟨_, _, peeked, taken⟩ := run_bind_eq_ok.mp colons
      cases peeked
      split at taken
      · rename_i ahead
        refine ⟨(), y, discard_eq_ok.mpr ⟨true, run_bind_eq_ok.mpr ⟨_, _, peek_run _, ?_⟩⟩, ?_⟩
        · rw [if_pos ahead]
          exact run_bind_eq_ok.mpr ⟨_, _, taken, rfl⟩
        · exact run_bind_eq_ok.mpr ⟨_, _, first, (repeats x).trans run⟩
      · cases taken
    · obtain ⟨w, e, ts, name⟩ := exists_name_of_segment first
      refine ⟨(), c, discard_eq_ok.mpr ⟨false, run_bind_eq_ok.mpr ⟨_, _, peek_run _, ?_⟩⟩, ?_⟩
      · rw [name]
        rfl
      · exact run_bind_eq_ok.mpr ⟨_, _, first, (repeats x).trans run⟩

section
variable [∀ nonterminal, Advances Remains (read nonterminal)]

instance : Advances Remains (link read inExpr) := by dsimp only [link]; infer_instance

instance : Consumes (link read inExpr) := by dsimp only [link]; infer_instance

end

/-! ## Where a path ends -/

/-- Whether the last token of a segment stands in front of the tokens that are left. -/
def EndsSegment (ts rest : List Token) : Prop :=
  ∃ us vs t, ts = us ++ t :: rest ∧ AreSegment vs t

theorem EndsSegment.of_isSuffix {ts rest : List Token} (h : EndsSegment us rest)
    (kept : us <:+ ts) : EndsSegment ts rest := by
  obtain ⟨taken, rfl⟩ := kept
  obtain ⟨front, vs, t, rfl, segment⟩ := h
  exact ⟨taken ++ front, vs, t, by rw [List.append_assoc], segment⟩

theorem endsSegment_of_segment (deep : 2 * n ≤ a) (few : sizeList c.rest < n)
    (h : segment (reader a) inExpr c = .ok (u, d)) : EndsSegment c.rest d.rest := by
  obtain ⟨us, t, rest, segment, -⟩ := segment_cut deep deep few h
  exact ⟨us, us, t, rest, segment⟩

theorem endsSegment_of_link (deep : 2 * n ≤ a) (few : sizeList c.rest < n)
    (h : link (reader a) inExpr c = .ok (u, d)) : EndsSegment c.rest d.rest := by
  obtain ⟨e, j, e', ts, rest, run⟩ := link_eq_ok.mp h
  have kept : ts <:+ c.rest := ⟨[.mark ':' true e, .mark ':' j e'], rest.symm⟩
  have fewer := Nat.lt_of_le_of_lt (sizeList_le_of_isSuffix kept) few
  have ends : EndsSegment ts d.rest := endsSegment_of_segment deep fewer run
  exact ends.of_isSuffix kept

theorem endsSegment_of_repeat (deep : 2 * n ≤ a) (few : sizeList c.rest < n) {i : ℕ}
    (h : repeatUpTo (furtherSegment (reader a) inExpr) i c = .ok (u, d)) :
    d.rest = c.rest ∨ EndsSegment c.rest d.rest := by
  induction i generalizing c with
  | zero =>
    cases h
    exact .inl rfl
  | succ i ih =>
    obtain ⟨t, x, once, run⟩ := run_bind_eq_ok.mp h
    rcases furtherSegment_eq_ok.mp once with ⟨rfl, linked⟩ | ⟨rfl, -, rfl⟩
    · have kept : x.rest <:+ c.rest := Advances.rest (R := Remains) linked
      have ends := endsSegment_of_link deep few linked
      obtain same | later := ih (Nat.lt_of_le_of_lt (sizeList_le_of_isSuffix kept) few) run
      · exact .inr (same ▸ ends)
      · exact .inr (later.of_isSuffix kept)
    · cases run
      exact .inl rfl

theorem endsSegment_of_pathParts (deep : 2 * n ≤ a) (few : sizeList c.rest < n)
    (h : pathParts (reader a) inExpr c = .ok (u, d)) : EndsSegment c.rest d.rest := by
  obtain ⟨x, first, run⟩ := pathParts_eq_ok.mp h
  have kept : x.rest <:+ c.rest := by
    rcases first with first | first
    all_goals exact Advances.rest (R := Remains) first
  have ends : EndsSegment c.rest x.rest :=
    first.elim (endsSegment_of_link deep few) (endsSegment_of_segment deep few)
  obtain same | later :=
    endsSegment_of_repeat deep (Nat.lt_of_le_of_lt (sizeList_le_of_isSuffix kept) few) run
  · exact same ▸ ends
  · exact later.of_isSuffix kept

/-! ## Paths in front of a double colon and a word -/

section
variable {e e' e'' : Extent} {w : String}

theorem segment_continued (deep : 2 * n ≤ a) (deep' : 2 * n ≤ b) (few : sizeList us < n)
    (continued : Continued (colonName e e' e'' w) us vs)
    (h : segment (reader a) inExpr { c with rest := us } = .ok (u, d)) :
    ∃ vs', Continued (colonName e e' e'' w) d.rest vs' ∧
      segment (reader b) inExpr { c with rest := vs } = .ok (u, { d with rest := vs' }) := by
  obtain ⟨front, t, rest, -, again⟩ := segment_cut deep deep' few h
  dsimp only at rest
  rw [rest] at continued
  obtain ⟨t', vs', rfl, alike, others⟩ := continued.cut
  exact ⟨vs', others, again t' vs' alike others.argumentsAhead_eq⟩

theorem segment_of_continued (deep : 2 * n ≤ a) (deep' : 2 * n ≤ b) (few : sizeList vs < n)
    (continued : Continued (colonName e e' e'' w) us vs)
    (h : segment (reader b) inExpr { c with rest := vs } = .ok (u, d)) :
    ∃ us', Continued (colonName e e' e'' w) us' d.rest ∧
      segment (reader a) inExpr { c with rest := us } = .ok (u, { d with rest := us' }) := by
  obtain ⟨front, t, rest, tokens, again⟩ := segment_cut deep' deep few h
  dsimp only at rest
  rw [rest] at continued
  obtain ⟨t', us', rfl, alike, others⟩ := continued.cut_segment tokens
  exact ⟨us', others, again t' us' alike others.argumentsAhead_eq.symm⟩

theorem link_continued (deep : 2 * n ≤ a) (deep' : 2 * n ≤ b) (few : sizeList us < n)
    (continued : Continued (colonName e e' e'' w) us vs)
    (h : link (reader a) inExpr { c with rest := us } = .ok (u, d)) :
    ∃ vs', Continued (colonName e e' e'' w) d.rest vs' ∧
      link (reader b) inExpr { c with rest := vs } = .ok (u, { d with rest := vs' }) := by
  obtain ⟨x, j, x', ts, rest, run⟩ := link_eq_ok.mp h
  dsimp only at rest
  subst rest
  obtain ⟨v, y, more, name⟩ := exists_name_of_segment run
  dsimp only at name
  obtain ⟨vs', rfl, others⟩ := continued.cut_two (name ▸ List.cons_ne_nil _ _)
  rw [sizeList, sizeList] at few
  obtain ⟨vs'', others, run'⟩ := segment_continued (c := { c with
    row := .token (.mark ':' false x') :: .token (.mark ':' true x) :: c.row })
    deep deep' (by omega) others run
  exact ⟨vs'', others, link_eq_ok.mpr ⟨x, j, x', vs', rfl, run'⟩⟩

/-- A double colon and a segment are those of the tokens in front, if there are any. -/
theorem link_of_continued (deep : 2 * n ≤ a) (deep' : 2 * n ≤ b) (few : sizeList vs < n)
    (continued : Continued (colonName e e' e'' w) us vs) (some : us ≠ [])
    (h : link (reader b) inExpr { c with rest := vs } = .ok (u, d)) :
    ∃ us', Continued (colonName e e' e'' w) us' d.rest ∧
      link (reader a) inExpr { c with rest := us } = .ok (u, { d with rest := us' }) := by
  obtain ⟨x, j, x', ts, rest, run⟩ := link_eq_ok.mp h
  dsimp only at rest
  subst rest
  obtain ⟨v, y, more, name⟩ := exists_name_of_segment run
  dsimp only at name
  subst name
  obtain ⟨us', rfl, others⟩ := continued.cut_two_of_name some (by simp [colonName])
    (by simp [colonName])
  rw [sizeList, sizeList] at few
  obtain ⟨us'', others, run'⟩ := segment_of_continued (c := { c with
    row := .token (.mark ':' false x') :: .token (.mark ':' true x) :: c.row })
    deep deep' (by omega) others run
  exact ⟨us'', others, link_eq_ok.mpr ⟨x, j, x', us', rfl, run'⟩⟩

def addSegment (e e' e'' : Extent) (w : String) (c : Cursor) : Cursor :=
  { c with row := ((colonName e e' e'' w).map segmentPart).reverse ++ c.row }

theorem repeat_colonName (word : IsSegment w) (continued : Continued (colonName e e' e'' w) [] vs)
    {j : ℕ} (enough : vs.length < j) :
    repeatUpTo (furtherSegment read inExpr) j { c with rest := vs } =
      .ok ((), addSegment e e' e'' w { c with rest := [] }) := by
  cases continued
  exact repeatUpTo_segments read (.cons e e' e'' .nil) (by simpa using word)
    ⟨rfl, by cases inExpr <;> rfl⟩ (Nat.lt_trans (Nat.succ_lt_succ (Nat.succ_pos 1)) enough) rfl

/-- The segments of a path are read in the same way, and the further one behind them. -/
theorem repeat_continued (deep : 2 * n ≤ a) (deep' : 2 * n ≤ b) (few : sizeList us < n)
    (word : IsSegment w) (continued : Continued (colonName e e' e'' w) us vs) {i j : ℕ}
    (enough : vs.length < j)
    (h : repeatUpTo (furtherSegment (reader a) inExpr) i { c with rest := us } = .ok ((), d))
    (whole : d.rest = []) :
    repeatUpTo (furtherSegment (reader b) inExpr) j { c with rest := vs } =
      .ok ((), addSegment e e' e'' w d) := by
  induction i generalizing c us vs j with
  | zero =>
    cases h
    cases show us = [] from whole
    exact repeat_colonName word continued enough
  | succ i ih =>
    obtain ⟨t, x, once, run⟩ := run_bind_eq_ok.mp h
    rcases furtherSegment_eq_ok.mp once with ⟨rfl, linked⟩ | ⟨rfl, -, rfl⟩
    · obtain ⟨vs', others, linked'⟩ := link_continued deep deep' few continued linked
      have fewer : sizeList x.rest ≤ sizeList us :=
        sizeList_le_of_isSuffix (Advances.rest (R := Remains) linked)
      have shorter : vs'.length < vs.length := Consumes.shorter linked'
      obtain ⟨j, rfl⟩ := Nat.exists_eq_succ_of_ne_zero (Nat.ne_zero_of_lt enough)
      refine run_bind_eq_ok.mpr ⟨true, _, furtherSegment_eq_ok.mpr (.inl ⟨rfl, linked'⟩), ?_⟩
      exact ih (Nat.lt_of_le_of_lt fewer few) others
        (Nat.lt_of_lt_of_le shorter (Nat.le_of_lt_succ enough)) run
    · cases run
      cases show us = [] from whole
      exact repeat_colonName word continued enough

/-- Nothing but segments and the further one are read up to the end. -/
theorem repeat_of_continued (deep : 2 * n ≤ a) (deep' : 2 * n ≤ b) (few : sizeList vs < n)
    (continued : Continued (colonName e e' e'' w) us vs) {i j : ℕ} (enough : us.length < i)
    (h : repeatUpTo (furtherSegment (reader b) inExpr) j { c with rest := vs } = .ok ((), d))
    (whole : d.rest = []) :
    ∃ x, repeatUpTo (furtherSegment (reader a) inExpr) i { c with rest := us } = .ok ((), x) ∧
      x.rest = [] := by
  obtain ⟨i, rfl⟩ := Nat.exists_eq_succ_of_ne_zero (Nat.ne_zero_of_lt enough)
  induction j generalizing c us vs i with
  | zero =>
    cases h
    cases show vs = [] from whole
    cases continued
  | succ j ih =>
    obtain ⟨t, x, once, run⟩ := run_bind_eq_ok.mp h
    rcases furtherSegment_eq_ok.mp once with ⟨rfl, linked⟩ | ⟨rfl, -, rfl⟩
    · cases us with
      | nil =>
        have ends : pathGoesOn [] = false := rfl
        exact ⟨_, run_bind_eq_ok.mpr ⟨false, _, furtherSegment_eq_ok.mpr (.inr ⟨rfl, ends, rfl⟩),
          rfl⟩, rfl⟩
      | cons t us =>
        obtain ⟨us', others, linked'⟩ :=
          link_of_continued deep deep' few continued (List.cons_ne_nil _ _) linked
        have fewer : sizeList x.rest ≤ sizeList vs :=
          sizeList_le_of_isSuffix (Advances.rest (R := Remains) linked)
        have shorter : us'.length < (t :: us).length := Consumes.shorter linked'
        have enough' := Nat.lt_of_lt_of_le shorter (Nat.le_of_lt_succ enough)
        obtain ⟨i, rfl⟩ := Nat.exists_eq_succ_of_ne_zero (Nat.ne_zero_of_lt enough')
        obtain ⟨y, run', ends⟩ := ih (Nat.lt_of_le_of_lt fewer few) others run i enough'
        have once' := furtherSegment_eq_ok.mpr (.inl ⟨rfl, linked'⟩)
        exact ⟨y, run_bind_eq_ok.mpr ⟨true, _, once', run'⟩, ends⟩
    · cases run
      cases show vs = [] from whole
      cases continued

/-- A path is read in the same way in front of a double colon and a word, which is its last
segment. -/
theorem pathParts_continued (deep : 2 * n ≤ a) (deep' : 2 * n ≤ b) (few : sizeList us < n)
    (word : IsSegment w) (continued : Continued (colonName e e' e'' w) us vs)
    (h : pathParts (reader a) inExpr { c with rest := us } = .ok ((), d)) (whole : d.rest = []) :
    pathParts (reader b) inExpr { c with rest := vs } = .ok ((), addSegment e e' e'' w d) := by
  obtain ⟨x, first, run⟩ := pathParts_eq_ok.mp h
  have fewer : sizeList x.rest ≤ sizeList us := by
    rcases first with first | first
    all_goals exact sizeList_le_of_isSuffix (Advances.rest (R := Remains) first)
  have start : ∃ vs', Continued (colonName e e' e'' w) x.rest vs' ∧
      (link (reader b) inExpr { c with rest := vs } = .ok ((), { x with rest := vs' }) ∨
        segment (reader b) inExpr { c with rest := vs } = .ok ((), { x with rest := vs' })) := by
    rcases first with first | first
    · obtain ⟨vs', others, first'⟩ := link_continued deep deep' few continued first
      exact ⟨vs', others, .inl first'⟩
    · obtain ⟨vs', others, first'⟩ := segment_continued deep deep' few continued first
      exact ⟨vs', others, .inr first'⟩
  obtain ⟨vs', others, first'⟩ := start
  exact pathParts_eq_ok.mpr ⟨_, first', repeat_continued deep deep'
    (Nat.lt_of_le_of_lt fewer few) word others (Nat.lt_succ_self _) run whole⟩

/-- What makes a path with a double colon and a word behind it is a path, if it is anything. -/
theorem pathParts_of_continued (deep : 2 * n ≤ a) (deep' : 2 * n ≤ b) (few : sizeList vs < n)
    (continued : Continued (colonName e e' e'' w) us vs) (some : us ≠ [])
    (h : pathParts (reader b) inExpr { c with rest := vs } = .ok ((), d)) (whole : d.rest = []) :
    ∃ x, pathParts (reader a) inExpr { c with rest := us } = .ok ((), x) ∧ x.rest = [] := by
  obtain ⟨x, first, run⟩ := pathParts_eq_ok.mp h
  have fewer : sizeList x.rest ≤ sizeList vs := by
    rcases first with first | first
    all_goals exact sizeList_le_of_isSuffix (Advances.rest (R := Remains) first)
  have start : ∃ us', Continued (colonName e e' e'' w) us' x.rest ∧
      (link (reader a) inExpr { c with rest := us } = .ok ((), { x with rest := us' }) ∨
        segment (reader a) inExpr { c with rest := us } = .ok ((), { x with rest := us' })) := by
    rcases first with first | first
    · obtain ⟨us', others, first'⟩ := link_of_continued deep deep' few continued some first
      exact ⟨us', others, .inl first'⟩
    · obtain ⟨us', others, first'⟩ := segment_of_continued deep deep' few continued first
      exact ⟨us', others, .inr first'⟩
  obtain ⟨us', others, first'⟩ := start
  obtain ⟨y, run', ends⟩ := repeat_of_continued deep deep' (Nat.lt_of_le_of_lt fewer few) others
    (Nat.lt_succ_self _) run whole
  exact ⟨y, pathParts_eq_ok.mpr ⟨_, first', run'⟩, ends⟩

end

end FormulaBinding.Grammar
