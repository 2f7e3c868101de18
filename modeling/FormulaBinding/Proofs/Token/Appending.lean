import FormulaBinding.Proofs.Token.Scanners
import FormulaBinding.Proofs.Token.Trivia

/-!
# What is appended to a text

The tokens of a text stay as they are where a text that starts with a colon is appended, and the
tokens of that text follow. Only a mark in front of the colon is joined to it, and a comment that
reaches to the end of the line goes on.
-/

namespace FormulaBinding.Lexer
open Text

variable {t cs : List Char} {n : Nat}

/-! ## Comments and blanks -/

/-- A line that ends within a text does not depend on what is appended. -/
theorem lineLength_append_of_mem (h : '\n' ∈ cs) (t : List Char) :
    lineLength (cs ++ t) = lineLength cs := by
  fun_induction lineLength cs
  case case1 => cases h
  case case2 => rw [List.cons_append, lineLength]
  case case3 => rw [List.cons_append, List.cons_append, lineLength]
  case case4 c cs newline back ih =>
    have inside : '\n' ∈ cs := (List.mem_cons.mp h).resolve_left fun same => newline same.symm
    rw [List.cons_append, lineLength, ih inside]
    · exact newline
    · intro more first same
      cases cs with
      | nil => cases inside
      | cons d cs =>
        obtain ⟨rfl, -⟩ := List.cons.inj same
        exact back cs first rfl

theorem lineLength_of_notMem (h : '\n' ∉ cs) : lineLength cs = (cs.length, 0) := by
  fun_induction lineLength cs <;> simp_all

theorem lineLength_le (cs : List Char) : (lineLength cs).1 ≤ cs.length := by
  fun_induction lineLength cs <;> simp_all

theorem IsAppendix.blockLength?_append (h : IsAppendix t) (cs : List Char) (depth : Nat) :
    blockLength? (cs ++ t) depth = blockLength? cs depth := by
  have none {ds : List Char} {depth : Nat} (free : '/' ∉ ds) : blockLength? ds depth = none := by
    fun_induction blockLength? ds depth <;> simp_all
  fun_induction blockLength? cs depth
  case case1 ih => rw [List.cons_append, List.cons_append, blockLength?, ih]
  case case2 last => rw [List.cons_append, List.cons_append, blockLength?, if_pos last]
  case case3 inner ih =>
    rw [List.cons_append, List.cons_append, blockLength?, if_neg inner, ih]
  case case4 opens closes ih =>
    rw [List.cons_append, blockLength?, ih]
    · intro more first same
      obtain ⟨rest, rfl, -⟩ := h.exists_of_append_eq (by decide) same
      exact opens rest first rfl
    · intro more first same
      obtain ⟨rest, rfl, -⟩ := h.exists_of_append_eq (by decide) same
      exact closes rest first rfl
  case case5 => exact none (h.free '/' (by decide))

theorem blockLength?_le {depth : Nat} (h : blockLength? cs depth = some n) : n ≤ cs.length := by
  fun_induction blockLength? cs depth generalizing n <;> grind [Option.map_eq_some_iff]

theorem exists_of_startsComment (h : startsComment cs = true) :
    ∃ c rest, cs = '/' :: c :: rest ∧ (c = '/' ∨ c = '*') := by
  rw [startsComment_eq, Bool.or_eq_true] at h
  rcases h with first | first
  · obtain ⟨rest, rfl⟩ := exists_of_isPrefixOf first
    exact ⟨'/', rest, rfl, .inl rfl⟩
  · obtain ⟨rest, rfl⟩ := exists_of_isPrefixOf first
    exact ⟨'*', rest, rfl, .inr rfl⟩

theorem isPrefixOf_eq_false {s cs : List Char} (h : ∀ rest, cs = s ++ rest → False) :
    s.isPrefixOf cs = false := by
  refine Bool.eq_false_iff.mpr fun first => ?_
  obtain ⟨rest, same⟩ := exists_of_isPrefixOf first
  exact h rest same

theorem spaceLength_of_line (rest : List Char) : spaceLength ('/' :: '/' :: rest) =
    if ['/', '/'].isPrefixOf rest || !(['/'].isPrefixOf rest || ['!'].isPrefixOf rest) then
      (lineLength ('/' :: '/' :: rest)).1
    else 0 := by
  unfold spaceLength
  dsimp only
  split
  case h_1 same _ =>
    cases same
    rfl
  case h_2 tail _ other same _ =>
    cases same
    rw [isPrefixOf_eq_false (s := ['/', '/'])]
    · rfl
    · intro more same
      exact other more (by rw [same]; rfl) (proof_irrel_heq _ _) (List.cons.inj same).2
  case h_3 same _ =>
    cases same
    rfl
  case h_4 tail _ four three inner same _ =>
    cases same
    rw [isPrefixOf_eq_false (s := ['/']), isPrefixOf_eq_false (s := ['!']), Bool.or_false,
      Bool.not_false, Bool.or_true, if_pos rfl]
    · exact fun more same => inner more (by rw [same]; rfl) (proof_irrel_heq _ _) same
    · exact fun more same => three more (by rw [same]; rfl) (proof_irrel_heq _ _) same
  case h_10 line _ _ _ _ _ => exact (line rest rfl rfl HEq.rfl).elim
  all_goals
    rename_i same _
    simp at same

theorem spaceLength_of_block (rest : List Char) : spaceLength ('/' :: '*' :: rest) =
    if ['*', '/'].isPrefixOf rest then 4
    else if ['*', '*'].isPrefixOf rest || !(['*'].isPrefixOf rest || ['!'].isPrefixOf rest) then
      (blockLength? ('/' :: '*' :: rest) 0).getD 0
    else 0 := by
  unfold spaceLength
  dsimp only
  split
  case h_5 same _ =>
    cases same
    rfl
  case h_6 same _ =>
    cases same
    rfl
  case h_7 tail _ empty doubled same _ =>
    cases same
    rw [isPrefixOf_eq_false (s := ['*', '/']), isPrefixOf_eq_false (s := ['*', '*'])]
    · rfl
    · intro more same
      exact doubled more (by rw [same]; rfl) (proof_irrel_heq _ _) (List.cons.inj same).2
    · intro more same
      exact empty more (by rw [same]; rfl) (proof_irrel_heq _ _) (List.cons.inj same).2
  case h_8 same _ =>
    cases same
    rfl
  case h_9 tail _ empty doubled outer inner same _ =>
    cases same
    rw [isPrefixOf_eq_false (s := ['*', '/']), isPrefixOf_eq_false (s := ['*', '*']),
      isPrefixOf_eq_false (s := ['*']), isPrefixOf_eq_false (s := ['!'])]
    · rfl
    · exact fun more same => inner more (by rw [same]; rfl) (proof_irrel_heq _ _) same
    · exact fun more same => outer more (by rw [same]; rfl) (proof_irrel_heq _ _) same
    · exact fun more same => outer _ (by rw [same]; rfl) (proof_irrel_heq _ _) same
    · exact fun more same => outer _ (by rw [same]; rfl) (proof_irrel_heq _ _) same
  case h_10 block => exact (block rest rfl rfl HEq.rfl).elim
  all_goals
    rename_i same _
    simp at same

theorem spaceLength_of_blank (h : startsComment cs = false) :
    spaceLength cs = (cs.takeWhile isSpace).length := by
  unfold spaceLength
  split
  · rfl
  · dsimp only
    split
    case h_10 =>
      rw [List.takeWhile_cons]
      split_ifs <;> rfl
    all_goals
      rename_i starts _
      rw [starts] at h
      cases h

theorem IsAppendix.startsComment_append (h : IsAppendix t) (cs : List Char) :
    startsComment (cs ++ t) = startsComment cs := by
  rw [startsComment_eq, startsComment_eq, h.isPrefixOf_append (by decide),
    h.isPrefixOf_append (by decide)]

/-- Whether a text is an ordinary comment of one line. -/
def IsLineComment (cs : List Char) : Prop :=
  '\n' ∉ cs ∧ ∃ rest, cs = '/' :: '/' :: rest ∧
    (['/', '/'].isPrefixOf rest || !(['/'].isPrefixOf rest || ['!'].isPrefixOf rest)) = true

theorem spaceLength_of_isLineComment (comment : IsLineComment cs) : spaceLength cs = cs.length := by
  obtain ⟨line, rest, rfl, ordinary⟩ := comment
  rw [spaceLength_of_line, if_pos ordinary, lineLength_of_notMem line]

theorem IsAppendix.isLineComment_append (h : IsAppendix t) (comment : IsLineComment cs) :
    IsLineComment (cs ++ t) := by
  obtain ⟨line, rest, rfl, ordinary⟩ := comment
  refine ⟨?_, rest ++ t, rfl, ?_⟩
  · rw [List.mem_append, not_or]
    exact ⟨line, h.free '\n' (by decide)⟩
  · rw [h.isPrefixOf_append (by decide), h.isPrefixOf_append (by decide),
      h.isPrefixOf_append (by decide)]
    exact ordinary

/-- Blanks and comments stay the same, but for a comment of one line. -/
theorem IsAppendix.spaceLength_append (h : IsAppendix t) (other : ¬IsLineComment cs) :
    spaceLength (cs ++ t) = spaceLength cs := by
  cases comment : startsComment cs with
  | false =>
    rw [spaceLength_of_blank comment,
      spaceLength_of_blank ((h.startsComment_append cs).trans comment),
      h.takeWhile_append (by decide)]
  | true =>
    obtain ⟨c, rest, rfl, rfl | rfl⟩ := exists_of_startsComment comment
    · rw [List.cons_append, List.cons_append, spaceLength_of_line, spaceLength_of_line,
        h.isPrefixOf_append (by decide), h.isPrefixOf_append (by decide),
        h.isPrefixOf_append (by decide)]
      split_ifs with ordinary
      · have line : '\n' ∈ '/' :: '/' :: rest := by
          by_contra line
          exact other ⟨line, rest, rfl, ordinary⟩
        exact congrArg Prod.fst (lineLength_append_of_mem line t)
      · rfl
    · have block := h.blockLength?_append ('/' :: '*' :: rest) 0
      rw [List.cons_append, List.cons_append] at block ⊢
      rw [spaceLength_of_block, spaceLength_of_block, h.isPrefixOf_append (by decide),
        h.isPrefixOf_append (by decide), h.isPrefixOf_append (by decide),
        h.isPrefixOf_append (by decide), block]

theorem spaceLength_le (cs : List Char) : spaceLength cs ≤ cs.length := by
  cases comment : startsComment cs with
  | false =>
    rw [spaceLength_of_blank comment]
    exact (List.takeWhile_sublist _).length_le
  | true =>
    obtain ⟨c, rest, rfl, rfl | rfl⟩ := exists_of_startsComment comment
    · rw [spaceLength_of_line]
      split_ifs
      · exact lineLength_le _
      · exact Nat.zero_le _
    · rw [spaceLength_of_block]
      split_ifs with empty
      · obtain ⟨more, rfl⟩ := exists_of_isPrefixOf empty
        simp
      · cases block : blockLength? ('/' :: '*' :: rest) 0 with
        | none => exact Nat.zero_le _
        | some n => exact blockLength?_le block
      · exact Nat.zero_le _

/-! ## Documentation -/

theorem doc?_of_line (rest : List Char) : doc? ('/' :: '/' :: rest) =
    (if ['!'].isPrefixOf rest then some (lineDoc 3 true (rest.drop 1))
    else if ['/', '/'].isPrefixOf rest then none
    else if ['/'].isPrefixOf rest then some (lineDoc 3 false (rest.drop 1))
    else none).filter fun doc => !hasLoneReturn doc.text := by
  rcases rest with _ | ⟨d, rest⟩
  · rfl
  · by_cases inner : d = '!'
    · subst inner
      rfl
    · by_cases slash : d = '/'
      · subst slash
        rcases rest with _ | ⟨e, rest⟩
        · rfl
        · by_cases slash : e = '/'
          · subst slash
            rfl
          · simp [doc?, List.isPrefixOf, slash, Ne.symm slash]
      · simp [doc?, List.isPrefixOf, Ne.symm slash, Ne.symm inner, slash, inner]

theorem doc?_of_block (rest : List Char) : doc? ('/' :: '*' :: rest) =
    (if ['!'].isPrefixOf rest then blockDoc? true ('/' :: '*' :: rest)
    else if ['*', '*'].isPrefixOf rest then none
    else if ['*'].isPrefixOf rest then blockDoc? false ('/' :: '*' :: rest)
    else none).filter fun doc => !hasLoneReturn doc.text := by
  rcases rest with _ | ⟨d, rest⟩
  · rfl
  · by_cases inner : d = '!'
    · subst inner
      rfl
    · by_cases star : d = '*'
      · subst star
        rcases rest with _ | ⟨e, rest⟩
        · rfl
        · by_cases star : e = '*'
          · subst star
            rfl
          · simp [doc?, List.isPrefixOf, star, Ne.symm star]
      · simp [doc?, List.isPrefixOf, Ne.symm star, Ne.symm inner, star, inner]

theorem doc?_of_notComment (h : startsComment cs = false) : doc? cs = none := by
  unfold doc?
  dsimp only
  split
  case h_7 => rfl
  all_goals cases h

theorem IsAppendix.hasLoneReturn_append (h : IsAppendix t) (cs : List Char) :
    hasLoneReturn (cs ++ t) = hasLoneReturn cs := by
  have none {ds : List Char} (free : '\r' ∉ ds) : hasLoneReturn ds = false := by
    fun_induction hasLoneReturn ds <;> simp_all
  fun_induction hasLoneReturn cs
  case case1 ih => rw [List.cons_append, List.cons_append, hasLoneReturn, ih]
  case case2 other =>
    rw [List.cons_append, hasLoneReturn]
    intro more same
    obtain ⟨rest, rfl, -⟩ := h.exists_of_append_eq (by decide) same
    exact other rest rfl
  case case3 back other ih =>
    rw [List.cons_append, hasLoneReturn, ih]
    exacts [fun _ same _ => other same, other]
  case case4 => exact none (h.free '\r' (by decide))

theorem IsAppendix.lineDoc_append (h : IsAppendix t) (opening : Nat) (inner : Bool)
    (cs : List Char) : lineDoc opening inner (cs ++ t) = lineDoc opening inner cs ∨
      (lineDoc opening inner cs).text = cs ∧
        (lineDoc opening inner cs).length = opening + cs.length ∧
        (lineDoc opening inner (cs ++ t)).text = cs ++ t ∧
        (lineDoc opening inner (cs ++ t)).length = opening + (cs ++ t).length := by
  have whole {ds : List Char} (line : '\n' ∉ ds) : (lineDoc opening inner ds).text = ds ∧
      (lineDoc opening inner ds).length = opening + ds.length := by
    rw [lineDoc, lineLength_of_notMem line]
    exact ⟨List.take_length, rfl⟩
  by_cases line : '\n' ∈ cs
  · have within : (lineLength cs).1 - (lineLength cs).2 ≤ cs.length :=
      (Nat.sub_le _ _).trans (lineLength_le cs)
    refine .inl ?_
    rw [lineDoc, lineDoc, lineLength_append_of_mem line]
    dsimp only
    rw [List.take_append_of_le_length within]
  · have line' : '\n' ∉ cs ++ t := by
      rw [List.mem_append, not_or]
      exact ⟨line, h.free '\n' (by decide)⟩
    exact .inr ⟨(whole line).1, (whole line).2, (whole line').1, (whole line').2⟩

theorem IsAppendix.blockDoc?_append (h : IsAppendix t) (inner : Bool) (cs : List Char) :
    blockDoc? inner (cs ++ t) = blockDoc? inner cs := by
  rw [blockDoc?, blockDoc?, h.blockLength?_append]
  cases block : blockLength? cs 0 with
  | none => rfl
  | some n =>
    have within := (Nat.sub_le n 2).trans (blockLength?_le block)
    rw [Option.map_some, Option.map_some, List.take_append_of_le_length within]

/-- What is written about something stays the same, but for a line that goes on in what is
appended. -/
theorem IsAppendix.doc?_append (h : IsAppendix t) (cs : List Char) : doc? (cs ++ t) = doc? cs ∨
    ∃ d e, doc? cs = some d ∧ doc? (cs ++ t) = some e ∧ d.length = cs.length ∧
      e.length = (cs ++ t).length := by
  cases comment : startsComment cs with
  | false =>
    exact .inl ((doc?_of_notComment ((h.startsComment_append cs).trans comment)).trans
      (doc?_of_notComment comment).symm)
  | true =>
    obtain ⟨c, rest, rfl, rfl | rfl⟩ := exists_of_startsComment comment
    · have line (c : Char) (inner : Bool) (more : List Char) :
          (some (lineDoc 3 inner (more ++ t))).filter (fun doc => !hasLoneReturn doc.text) =
            (some (lineDoc 3 inner more)).filter (fun doc => !hasLoneReturn doc.text) ∨
          ∃ d e,
            (some (lineDoc 3 inner more)).filter (fun doc => !hasLoneReturn doc.text) = some d ∧
            (some (lineDoc 3 inner (more ++ t))).filter (fun doc => !hasLoneReturn doc.text) =
              some e ∧
            d.length = ('/' :: '/' :: c :: more).length ∧
            e.length = ('/' :: '/' :: c :: (more ++ t)).length := by
        obtain same | ⟨text, length, text', length'⟩ := h.lineDoc_append 3 inner more
        · exact .inl (by rw [same])
        · rw [Option.filter_some, Option.filter_some, text, text', h.hasLoneReturn_append]
          cases hasLoneReturn more with
          | true => exact .inl rfl
          | false =>
            refine .inr ⟨_, _, rfl, rfl, ?_, ?_⟩
            · rw [length, List.length_cons, List.length_cons, List.length_cons]
              omega
            · rw [length', List.length_cons, List.length_cons, List.length_cons]
              omega
      rw [List.cons_append, List.cons_append, doc?_of_line, doc?_of_line,
        h.isPrefixOf_append (by decide), h.isPrefixOf_append (by decide),
        h.isPrefixOf_append (by decide)]
      split_ifs with inner four outer
      · obtain ⟨more, rfl⟩ := exists_of_isPrefixOf inner
        exact line '!' true more
      · exact .inl rfl
      · obtain ⟨more, rfl⟩ := exists_of_isPrefixOf outer
        exact line '/' false more
      · exact .inl rfl
    · have block (inner : Bool) := h.blockDoc?_append inner ('/' :: '*' :: rest)
      rw [List.cons_append, List.cons_append] at block ⊢
      rw [doc?_of_block, doc?_of_block, h.isPrefixOf_append (by decide),
        h.isPrefixOf_append (by decide), h.isPrefixOf_append (by decide), block, block]
      exact .inl rfl

theorem doc?_le {d : Doc} (h : doc? cs = some d) : d.length ≤ cs.length := by
  have comment : startsComment cs = true := by
    by_contra other
    rw [doc?_of_notComment (Bool.eq_false_iff.mpr other)] at h
    cases h
  have line (c : Char) (inner : Bool) (more : List Char) :
      (lineDoc 3 inner more).length ≤ ('/' :: '/' :: c :: more).length := by
    have within := lineLength_le more
    rw [lineDoc, List.length_cons, List.length_cons, List.length_cons]
    dsimp only
    omega
  have block {inner : Bool} {cs : List Char} {d : Doc} (h : blockDoc? inner cs = some d) :
      d.length ≤ cs.length := by
    obtain ⟨n, length, rfl⟩ := Option.map_eq_some_iff.mp h
    exact blockLength?_le length
  obtain ⟨c, rest, rfl, rfl | rfl⟩ := exists_of_startsComment comment
  · rw [doc?_of_line, Option.filter_eq_some_iff] at h
    obtain ⟨h, -⟩ := h
    split_ifs at h with inner four outer
    · cases h
      obtain ⟨more, rfl⟩ := exists_of_isPrefixOf inner
      exact line '!' true more
    · cases h
      obtain ⟨more, rfl⟩ := exists_of_isPrefixOf outer
      exact line '/' false more
  · rw [doc?_of_block, Option.filter_eq_some_iff] at h
    obtain ⟨h, -⟩ := h
    split_ifs at h
    · exact block h
    · exact block h

/-! ## Reading on -/

theorem IsAppendix.opening?_append (h : IsAppendix t) (c : Char) (cs : List Char) :
    opening? (c :: cs ++ t) = opening? (c :: cs) := by
  rw [opening?, opening?, h.isPrefixOf_append (by decide)]
  rfl

def closers : List Char := [')', ']', '\x7d']

theorem closers_subset : closers ⊆ enders := by decide

/-- A group that is open stays open where nothing closes one. -/
theorem run_of_open {p : Position} {frames : List Frame} {done : List Token}
    (free : ∀ x ∈ closers, x ∉ cs) (some : frames ≠ []) :
    run cs p frames done = none := by
  have behind {c : Char} {rest : List Char} (free : ∀ x ∈ closers, x ∉ c :: rest)
      (k : Nat) : ∀ x ∈ closers, x ∉ rest.drop k := fun x closes mem =>
    free x closes (List.mem_cons_of_mem c (List.mem_of_mem_drop mem))
  fun_induction run cs p frames done
  case case1 => exact absurd rfl some
  case case3 ih => exact ih (behind free _) some
  case case4 ih => exact ih (behind free _) some
  case case5 ih => exact ih (behind free 0) (List.cons_ne_nil _ _)
  case case7 c rest _ _ _ frame _ closes _ =>
    have opened : Delimiter.ofClosing? c = none := by
      have other (x : Char) (closer : x ∈ closers) : c ≠ x := by
        rintro rfl
        exact free c closer List.mem_cons_self
      have parenthesis := other ')' (by decide)
      have bracket := other ']' (by decide)
      have brace := other '\x7d' (by decide)
      simp [Delimiter.ofClosing?, parenthesis, bracket, brace]
    rw [opened] at closes
    cases closes
  case case9 ih => exact ih (behind free _) some
  all_goals rfl

/-- The tokens in front of a colon, the last one first, of which a mark may be joined to it. -/
def Joined (done done' : List Token) : Prop :=
  done' = done ∨ ∃ x j e ts, done = .mark x j e :: ts ∧ done' = .mark x true e :: ts

/-- Whether the last token is a group in brackets. -/
def EndsInBrackets (done : List Token) : Prop :=
  ∃ body o c ts, done = .group .bracket body o c :: ts

theorem endsInBrackets_tokens (doc : Doc) (e : Extent) (done : List Token) :
    EndsInBrackets ((doc.tokens e).reverse ++ done) := by
  rw [Doc.tokens]
  split_ifs <;> exact ⟨_, _, _, _, rfl⟩

theorem run_nil (p q : Position) (frames : List Frame) (done : List Token) :
    run [] p frames done = run [] q frames done := by
  cases frames <;> simp only [run]

/-- Whether a text ends in an ordinary comment of one line. -/
def EndsInComment (cs : List Char) : Prop := ∃ comment, comment <:+ cs ∧ IsLineComment comment

/-- How a text is read in front of what is appended to it, if it is read by itself as `now`: what is
appended is hidden, where the text is not read at all or ends in a comment, or the tokens of the
text come first, the last of which may be a mark that is joined to what is appended, or
documentation that goes on in it. -/
inductive ReadsOn (cs : List Char) (now : Option (List Token))
    (later : List Char → Option (List Token)) : Prop
  | hidden (why : now = none ∨ EndsInComment cs) (same : ∀ t, IsAppendix t → later t = now)
  | shown (q : Position) (before : List Token) (alone : now = some before.reverse)
      (more : ∀ t, IsAppendix t →
        (∃ after, Joined before after ∧ later t = run t q [] after) ∨
        EndsInBrackets before ∧ ∃ after, EndsInBrackets after ∧ later t = some after.reverse)

/-- A text is read as what is left of it is, where nothing else is read of the rest. -/
theorem ReadsOn.congr {cs' : List Char} {now : Option (List Token)}
    {later later' : List Char → Option (List Token)} (h : ReadsOn cs' now later)
    (behind : cs' <:+ cs) (same : ∀ t, IsAppendix t → later' t = later t) :
    ReadsOn cs now later' := by
  cases h with
  | hidden why hides =>
    refine .hidden (why.imp_right ?_) fun t ht => (same t ht).trans (hides t ht)
    rintro ⟨comment, within, line⟩
    exact ⟨comment, within.trans behind, line⟩
  | shown q before alone more =>
    refine .shown q before alone fun t ht => ?_
    rw [same t ht]
    exact more t ht

/-- What is left behind the first character and some more is the end of a text. -/
theorem drop_suffix_cons (k : Nat) (c : Char) (cs : List Char) : cs.drop k <:+ c :: cs :=
  (List.drop_suffix k cs).trans (List.suffix_cons c cs)

/-- At the end of a text, what is appended is read next; a group that is open stays open. -/
theorem readsOn_nil {p : Position} {frames : List Frame} {done : List Token}
    {later : List Char → Option (List Token)}
    (next : ∀ t, IsAppendix t → ∃ after, Joined done after ∧ later t = run t p frames after) :
    ReadsOn cs (run [] p frames done) later := by
  cases frames with
  | nil => exact .shown p done (by rw [run]) fun t h => .inl (next t h)
  | cons frame frames =>
    refine .hidden (.inl (by rw [run])) fun t h => ?_
    obtain ⟨after, -, same⟩ := next t h
    rw [same, run_of_open (fun x closes => h.free x (closers_subset closes))
      (List.cons_ne_nil _ _), run]

theorem IsAppendix.spaceLength_append_eq_zero (h : IsAppendix t) {c : Char}
    (space : spaceLength (c :: cs) = 0) : spaceLength (c :: (cs ++ t)) = 0 := by
  refine (h.spaceLength_append fun line => ?_).trans space
  rw [spaceLength_of_isLineComment line] at space
  cases space

/-- What is neither blank nor a comment is neither in front of what is appended. -/
theorem IsAppendix.starts_append (h : IsAppendix t) {c : Char} (space : spaceLength (c :: cs) = 0)
    (doc : doc? (c :: cs) = none) : spaceLength (c :: (cs ++ t)) = 0 ∧
      doc? (c :: (cs ++ t)) = none ∧ opening? (c :: (cs ++ t)) = opening? (c :: cs) := by
  refine ⟨h.spaceLength_append_eq_zero space, ?_, h.opening?_append c cs⟩
  · obtain same | ⟨d, _, some, -⟩ := h.doc?_append (c :: cs)
    · exact same.trans doc
    · cases doc.symm.trans some

/-! Each of the next lemmas is about what stands at the beginning of a text; `more` says that the
rest of the text is read on. -/

variable {c : Char} {p : Position} {frames : List Frame} {done : List Token}

/-- Behind blanks or a comment the rest is read on; a comment of one line goes on in what is
appended. -/
theorem readsOn_of_space (space : spaceLength (c :: cs) = n + 1)
    (more : ReadsOn (cs.drop n) (run (cs.drop n) (p.advance (c :: cs.take n)) frames done)
      fun t => run (cs.drop n ++ t) (p.advance (c :: cs.take n)) frames done) :
    ReadsOn (c :: cs) (run (cs.drop n) (p.advance (c :: cs.take n)) frames done)
      fun t => run (c :: cs ++ t) p frames done := by
  have within : n ≤ cs.length := by
    have within := spaceLength_le (c :: cs)
    rw [space] at within
    exact Nat.le_of_succ_le_succ within
  by_cases line : IsLineComment (c :: cs)
  · have all : n = cs.length := by
      have all := spaceLength_of_isLineComment line
      rw [space] at all
      exact Nat.succ.inj all
    refine .hidden (.inr ⟨c :: cs, List.suffix_rfl, line⟩) fun t h => ?_
    have space' : spaceLength (c :: (cs ++ t)) = (cs ++ t).length + 1 :=
      spaceLength_of_isLineComment (h.isLineComment_append line)
    rw [List.cons_append, run_space space', List.drop_length, List.drop_eq_nil_of_le all.ge]
    exact run_nil _ _ _ _
  · refine more.congr (drop_suffix_cons n c cs) fun t h => ?_
    have space' : spaceLength (c :: (cs ++ t)) = n + 1 := (h.spaceLength_append line).trans space
    rw [List.cons_append, run_space space', List.drop_append_of_le_length within,
      List.take_append_of_le_length within]

theorem run_doc {d : Doc} (space : spaceLength (c :: cs) = 0)
    (documents : doc? (c :: cs) = some d) (p : Position) (frames : List Frame) (done : List Token) :
    run (c :: cs) p frames done = run (cs.drop (d.length - 1))
      (Extent.covering p (c :: cs.take (d.length - 1))).stop frames
      ((d.tokens (Extent.covering p (c :: cs.take (d.length - 1)))).reverse ++ done) := by
  rw [run]
  simp only [space, documents]

/-- At the end of documentation, what is appended is read next or belongs to it. -/
theorem readsOn_of_endsInBrackets (brackets : EndsInBrackets done)
    {later : List Char → Option (List Token)}
    (goesOn : ∀ t, IsAppendix t → later t = run t p frames done ∨
      ∃ after q, EndsInBrackets after ∧ later t = run [] q frames after) :
    ReadsOn cs (run [] p frames done) later := by
  cases frames with
  | nil =>
    refine .shown p done (by rw [run]) fun t h => ?_
    obtain read | ⟨after, q, brackets', read⟩ := goesOn t h
    · exact .inl ⟨_, .inl rfl, read⟩
    · rw [run] at read
      exact .inr ⟨brackets, after, brackets', read⟩
  | cons frame frames =>
    refine .hidden (.inl (by rw [run])) fun t h => ?_
    obtain read | ⟨after, q, -, read⟩ := goesOn t h
    · rw [read, run, run_of_open (fun x closes => h.free x (closers_subset closes))
        (List.cons_ne_nil _ _)]
    · rw [read, run, run]

/-- Behind documentation the rest is read on; its last line goes on in what is appended. -/
theorem readsOn_of_doc (space : spaceLength (c :: cs) = 0) {doc : Doc}
    (documents : doc? (c :: cs) = some doc) {extent : Extent}
    (covers : extent = Extent.covering p (c :: cs.take (doc.length - 1)))
    (more : ReadsOn (cs.drop (doc.length - 1)) (run (cs.drop (doc.length - 1)) extent.stop frames
        ((doc.tokens extent).reverse ++ done))
      fun t => run (cs.drop (doc.length - 1) ++ t) extent.stop frames
        ((doc.tokens extent).reverse ++ done)) :
    ReadsOn (c :: cs) (run (cs.drop (doc.length - 1)) extent.stop frames
        ((doc.tokens extent).reverse ++ done))
      fun t => run (c :: cs ++ t) p frames done := by
  have within : doc.length - 1 ≤ cs.length := Nat.sub_le_of_le_add (doc?_le documents)
  have same {t : List Char} (h : IsAppendix t) (documents' : doc? (c :: cs ++ t) = some doc) :
      run (c :: cs ++ t) p frames done = run (cs.drop (doc.length - 1) ++ t) extent.stop frames
        ((doc.tokens extent).reverse ++ done) := by
    rw [List.cons_append, run_doc (h.spaceLength_append_eq_zero space) documents',
      List.drop_append_of_le_length within, List.take_append_of_le_length within, covers]
  by_cases whole : doc.length = (c :: cs).length
  · have none : cs.drop (doc.length - 1) = [] :=
      List.drop_eq_nil_of_le (by rw [whole]; exact Nat.le_refl _)
    rw [none] at same ⊢
    refine readsOn_of_endsInBrackets (endsInBrackets_tokens _ _ _) fun t h => ?_
    obtain documents' | ⟨d, e, -, documents', -, length⟩ := h.doc?_append (c :: cs)
    · exact .inl (same h (documents'.trans documents))
    · have all : (cs ++ t).drop (e.length - 1) = [] :=
        List.drop_eq_nil_of_le (by rw [length]; exact Nat.le_refl _)
      have read := run_doc (h.spaceLength_append_eq_zero space) documents' p frames done
      rw [all] at read
      exact .inr ⟨_, _, endsInBrackets_tokens e _ done, read⟩
  · refine more.congr (drop_suffix_cons _ c cs) fun t h => same h ?_
    obtain documents' | ⟨d, e, documents', -, length, -⟩ := h.doc?_append (c :: cs)
    · exact documents'.trans documents
    · cases documents.symm.trans documents'
      exact absurd length whole

/-- Behind a word, a literal or a mark the rest is read on; a mark at the end may be joined to what
is appended. -/
theorem readsOn_of_leaf (space : spaceLength (c :: cs) = 0) (doc : doc? (c :: cs) = none)
    (opening : opening? (c :: cs) = none) (closing : Delimiter.ofClosing? c = none) {token : Token}
    (leaf : leaf? (c :: cs) p = some (token, n + 1))
    (more : ReadsOn (cs.drop n)
        (run (cs.drop n) (p.advance (c :: cs.take n)) frames (token :: done))
      fun t => run (cs.drop n ++ t) (p.advance (c :: cs.take n)) frames (token :: done)) :
    ReadsOn (c :: cs) (run (cs.drop n) (p.advance (c :: cs.take n)) frames (token :: done))
      fun t => run (c :: cs ++ t) p frames done := by
  have step {t : List Char} (h : IsAppendix t) {token' : Token} {m : Nat}
      (leaf' : leaf? (c :: cs ++ t) p = some (token', m + 1)) (within : m ≤ cs.length) :
      run (c :: cs ++ t) p frames done =
        run (cs.drop m ++ t) (p.advance (c :: cs.take m)) frames (token' :: done) := by
    obtain ⟨space', doc', opening'⟩ := h.starts_append space doc
    rw [List.cons_append] at leaf' ⊢
    rw [run]
    simp only [space', doc', opening', opening, closing, leaf']
    rw [List.drop_append_of_le_length within, List.take_append_of_le_length within]
  have within : n ≤ cs.length := Nat.le_of_succ_le_succ (leaf?_le leaf)
  rcases cs with _ | ⟨d, cs⟩
  · rw [List.drop_nil, List.take_nil]
    refine readsOn_nil fun t h => ?_
    obtain same | ⟨-, mark, mark'⟩ := h.leaf?_append c [] p
    · have read := step h (same.trans leaf) within
      rw [List.drop_nil, List.take_nil] at read
      exact ⟨_, .inl rfl, read⟩
    · cases mark.symm.trans leaf
      exact ⟨_, .inr ⟨_, _, _, _, rfl, rfl⟩, step h mark' (Nat.le_refl 0)⟩
  · refine more.congr (drop_suffix_cons _ c _) fun t h => ?_
    have same := (h.leaf?_append c (d :: cs) p).resolve_right fun none =>
      List.cons_ne_nil _ _ none.1
    exact step h (same.trans leaf) within

/-- Every text is read on with what is appended to it, whatever has been read before. -/
theorem run_append (cs : List Char) (p : Position) (frames : List Frame) (done : List Token) :
    ReadsOn cs (run cs p frames done) fun t => run (cs ++ t) p frames done := by
  fun_induction run cs p frames done
  case case1 p done =>
    have alone : ReadsOn [] (run [] p [] done) fun t => run t p [] done :=
      readsOn_nil fun t _ => ⟨done, .inl rfl, rfl⟩
    rw [run] at alone
    exact alone
  case case2 p done frame frames =>
    have alone : ReadsOn [] (run [] p (frame :: frames) done) fun t =>
        run t p (frame :: frames) done :=
      readsOn_nil fun t _ => ⟨done, .inl rfl, rfl⟩
    rw [run] at alone
    exact alone
  case case3 space ih => exact readsOn_of_space space ih
  case case4 space doc documents extent ih => exact readsOn_of_doc space documents rfl ih
  case case5 p frames done c cs space doc d opens ih =>
    refine ih.congr (List.suffix_cons c cs) fun t h => ?_
    obtain ⟨space', doc', opening'⟩ := h.starts_append space doc
    rw [List.cons_append, run]
    simp only [space', doc', opening', opens]
  case case6 p done c cs space doc opening d closes =>
    refine .hidden (.inl rfl) fun t h => ?_
    obtain ⟨space', doc', opening'⟩ := h.starts_append space doc
    rw [List.cons_append, run]
    simp only [space', doc', opening', opening, closes]
  case case7 p done c cs space doc opening frame frames closes ih =>
    simp only [List.unattach_reverse, List.unattach_attach] at ih
    refine ih.congr (List.suffix_cons c cs) fun t h => ?_
    obtain ⟨space', doc', opening'⟩ := h.starts_append space doc
    rw [List.cons_append, run]
    simp only [space', doc', opening', opening, closes, if_true]
  case case8 p done c cs space doc opening d closes frame frames other =>
    refine .hidden (.inl rfl) fun t h => ?_
    obtain ⟨space', doc', opening'⟩ := h.starts_append space doc
    rw [List.cons_append, run]
    simp only [space', doc', opening', opening, closes, if_neg other]
  case case9 space doc opening closing token n leaf ih =>
    exact readsOn_of_leaf space doc opening closing leaf ih
  case case10 p frames done c cs space doc opening closing none =>
    refine .hidden (.inl rfl) fun t h => ?_
    obtain ⟨space', doc', opening'⟩ := h.starts_append space doc
    rw [List.cons_append, run]
    simp only [space', doc', opening', opening, closing]
    split
    · rename_i leaf
      obtain same | ⟨rfl, mark, -⟩ := h.leaf?_append c cs p
      · exact (none _ _ (same.symm.trans leaf)).elim
      · exact (none _ _ mark).elim
    · rfl

theorem tokens?_append (cs : List Char) : ReadsOn cs (tokens? cs) fun t => tokens? (cs ++ t) := by
  cases cs with
  | nil =>
    refine .shown Position.start [] rfl fun t h => .inl ⟨[], .inl rfl, ?_⟩
    obtain ⟨more, rfl⟩ := h.colon
    have other : ':' ≠ Char.ofNat 0xfeff := by decide
    rw [List.nil_append, tokens?, if_neg other]
  | cons c cs =>
    by_cases mark : c = Char.ofNat 0xfeff
    · have read := run_append cs (Position.start.next c) [] []
      simpa only [tokens?, List.cons_append, if_pos mark] using
        read.congr (List.suffix_cons c cs) fun _ _ => rfl
    · have read := run_append (c :: cs) Position.start [] []
      simpa only [tokens?, List.cons_append, if_neg mark] using read

end FormulaBinding.Lexer
