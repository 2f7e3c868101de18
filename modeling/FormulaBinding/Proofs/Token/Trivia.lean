import FormulaBinding.Proofs.Token.Words

/-!
# Text without tokens

Reading never takes a token back. So where a text has as many tokens as its beginning, only
separators follow the beginning, and they add no token behind any other text either.
-/

namespace FormulaBinding.Lexer
open Text

variable {cs : List Char} {p : Position} {frames : List Frame} {done ts : List Token} {n m : Nat}

/-- How many tokens there are at least once all groups are closed, if there are `n` in the innermost
open one. -/
def reached : List Frame → Nat → Nat
  | [], n => n
  | frame :: frames, _ => reached frames (frame.before.length + 1)

theorem reached_mono (h : n ≤ m) (frames : List Frame) : reached frames n ≤ reached frames m := by
  cases frames with
  | nil => exact h
  | cons frame frames => exact Nat.le_refl _

theorem reached_le_of_run (h : run cs p frames done = some ts) :
    reached frames done.length ≤ ts.length := by
  fun_induction run cs p frames done
  case case1 done =>
    cases h
    rw [reached, List.length_reverse]
  case case3 ih => exact ih h
  case case4 ih =>
    refine Nat.le_trans (reached_mono ?_ _) (ih h)
    rw [List.length_append]
    exact Nat.le_add_left _ _
  case case5 ih => exact Nat.le_trans (reached_mono (Nat.le_succ _) _) (ih h)
  case case7 frame frames _ ih =>
    simp only [List.unattach_reverse, List.unattach_attach] at ih
    exact ih h
  case case9 ih => exact Nat.le_trans (reached_mono (Nat.le_succ _) _) (ih h)
  all_goals cases h

/-- Whether a text adds no token to what is read before it, and starts with a separator if it is not
empty. -/
structure IsTrivia (cs : List Char) : Prop where
  run_eq : ∀ p done, run cs p [] done = some done.reverse
  eq_nil : spaceLength cs = 0 → cs = []

theorem run_space {c : Char} (space : spaceLength (c :: cs) = n + 1) (p : Position)
    (frames : List Frame) (done : List Token) :
    run (c :: cs) p frames done = run (cs.drop n) (p.advance (c :: cs.take n)) frames done := by
  rw [run, space]

theorem length_tokens (doc : Doc) (e : Extent) : 0 < (doc.tokens e).length := by
  rw [Doc.tokens]
  split_ifs <;> exact Nat.succ_pos _

/-- What adds no token behind one text adds none behind any other: it is read as separators only,
since everything else adds a token that stays. -/
theorem isTrivia_of_run (none : frames = []) (h : run cs p frames done = some ts)
    (same : ts.length = done.length) : IsTrivia cs := by
  fun_induction run cs p frames done
  case case1 done => exact ⟨fun p done => by rw [run], fun _ => rfl⟩
  case case3 space ih =>
    refine ⟨fun p done => ?_, fun zero => absurd (space.symm.trans zero) (Nat.succ_ne_zero _)⟩
    rw [run_space space]
    exact (ih none h same).run_eq _ _
  case case4 doc _ _ ih =>
    have more := reached_le_of_run h
    subst none
    rw [reached, same, List.length_append, List.length_reverse] at more
    exact absurd more (Nat.not_le.mpr (Nat.lt_add_of_pos_left (length_tokens doc _)))
  case case5 ih =>
    have more := reached_le_of_run h
    subst none
    rw [reached, reached, same] at more
    exact absurd more (Nat.not_succ_le_self _)
  case case7 => cases none
  case case9 ih =>
    have more := reached_le_of_run h
    subst none
    rw [reached, same] at more
    exact absurd more (Nat.not_succ_le_self _)
  all_goals cases h

theorem isTrivia_nil : IsTrivia [] := ⟨fun _ _ => by rw [run], fun _ => rfl⟩

theorem IsTrivia.endsWord {rest : List Char} (trivia : IsTrivia rest)
    (stops : ∀ x, rest.head? = some x → isNameContinue x = false) : EndsWord rest := by
  intro x first
  refine ⟨stops x first, fun hook => ?_⟩
  cases rest with
  | nil => cases first
  | cons y rest =>
    cases first
    have apart : ∀ h ∈ hooks, h ≠ '/' ∧ isSpace h = false := by decide
    obtain ⟨slash, space⟩ := apart x hook
    cases trivia.eq_nil (spaceLength_of_ne slash space)

theorem tokens?_append_of_isTrivia {w rest : List Char} (word : IsWord w)
    (trivia : IsTrivia rest) (ends : EndsWord rest) :
    tokens? (w ++ rest) = some [.name (String.ofList w) (Extent.covering Position.start w)] := by
  have single := run_append_of_isWord word ends Position.start [] []
  rw [trivia.run_eq] at single
  obtain ⟨c, cs, rfl, start⟩ := exists_cons_of_isWord word
  have mark : c ≠ Char.ofNat 0xfeff := ne_of_isNameStart start (by decide)
  rw [List.cons_append] at single ⊢
  rw [tokens?, if_neg mark, single]
  rfl

theorem toList_of_leaf? {cs : List Char} {p : Position} {w : String} {e : Extent} {n : Nat}
    (h : leaf? cs p = some (.name w e, n)) : w.toList = cs.take n := by
  unfold leaf? at h
  dsimp only at h
  split at h
  · cases h
  · by_cases mark : startsMark cs = true
    · rw [if_pos mark] at h
      split at h
      · rw [apostrophe?, Option.map_eq_some_iff] at h
        obtain ⟨m, -, h⟩ := h
        split_ifs at h <;> cases h
      · cases h
      · cases h
    · rw [if_neg mark] at h
      split at h
      · cases h
        exact String.toList_ofList
      · split_ifs at h
        cases h

/-- Without separators and groups, a text with one name is that name. -/
theorem eq_of_tokens? {cs : List Char} {w : String} {e : Extent}
    (h : tokens? cs = some [.name w e])
    (apart : ∀ c ∈ cs, isSpace c = false ∧ c ∉ outside) : w.toList = cs := by
  cases cs with
  | nil => cases h
  | cons c rest =>
    obtain ⟨space, out⟩ := apart c List.mem_cons_self
    have slash : c ≠ '/' := ne_of_notMem_outside out (by decide)
    rw [tokens?, if_neg (ne_of_notMem_outside out (by decide)), run,
      spaceLength_of_ne slash space, doc?_of_ne slash, opening?_of_notMem out,
      ofClosing?_of_notMem out] at h
    dsimp only at h
    split at h
    case h_2 => cases h
    case h_1 token n leaf =>
      have trivia := isTrivia_of_run rfl h rfl
      have none : rest.drop n = [] := by
        refine trivia.eq_nil ?_
        cases behind : rest.drop n with
        | nil => rfl
        | cons d more =>
          have mem : d ∈ rest := List.mem_of_mem_drop (behind ▸ List.mem_cons_self)
          obtain ⟨space, out⟩ := apart d (List.mem_cons_of_mem c mem)
          exact spaceLength_of_ne (ne_of_notMem_outside out (by decide)) space
      rw [none, run] at h
      cases h
      rw [toList_of_leaf? leaf, List.take_succ_cons, List.take_of_length_le]
      exact List.drop_eq_nil_iff.mp none

end FormulaBinding.Lexer
