import FormulaBinding.Proofs.Grammar.Consumption
import Mathlib.Data.Nat.Notation

/-!
# Readings that agree

A parser agrees with another one if it does the same in front of one end of the tokens as the other
one in front of another end, wherever the other one succeeds and leaves that end ahead. This is
asked of tokens up to a size, since rules that are applied up to a depth agree with rules that are
applied further only where there are not too many tokens. A rule that has taken a token has fewer
tokens ahead.
-/

namespace FormulaBinding

namespace Token

theorem sizeList_le_of_isSuffix {ts us : List Token} (h : us <:+ ts) :
    sizeList us ≤ sizeList ts := by
  obtain ⟨taken, rfl⟩ := h
  rw [sizeList_append]
  exact Nat.le_add_left _ _

theorem length_le_sizeList (ts : List Token) : ts.length ≤ sizeList ts := by
  induction ts with
  | nil => exact Nat.zero_le _
  | cons t ts ih =>
    have one : 1 ≤ size t := by cases t <;> simp [size]
    rw [List.length_cons, sizeList]
    omega

theorem sizeList_lt_of_isSuffix {ts us : List Token} (h : us <:+ ts)
    (shorter : us.length < ts.length) : sizeList us < sizeList ts := by
  obtain ⟨taken, rfl⟩ := h
  have some := length_le_sizeList taken
  rw [sizeList_append]
  rw [List.length_append] at shorter
  omega

end Token

namespace Parser

/-- What a cursor knows of the group that it is in. -/
abbrev Surrounding : Type := Option (Delimiter × Extent)

variable {α β : Type} {v w us us' : List Token} {start : Bool} {n : ℕ} {p q : Parser α}
variable {c d e : Cursor} {a : α} {k : Kind} {s : Surrounding → Surrounding}

/-! ## Ends that a test cannot tell apart -/

/-- Whether a function of the tokens ahead does not depend on which of two ends they have. -/
class Blind (v w : List Token) (f : List Token → β) : Prop where
  same : ∀ us, f (us ++ v) = f (us ++ w)

/-- Two ends of the tokens ahead of a type: either there is nothing, or a closing angle bracket at
the same place. -/
class Closes (v w : List Token) : Prop where
  ends : (v = [] ∧ w = []) ∨
    ∃ j j' e vs ws, v = .mark '>' j e :: vs ∧ w = .mark '>' j' e :: ws

instance : Closes [] [] := ⟨.inl ⟨rfl, rfl⟩⟩

/-- Two ends behind a type: there may also be nothing in one place and a comma in the other. -/
class Stops (v w : List Token) : Prop where
  ends : Closes v w ∨ (v = [] ∧ ∃ j e ws, w = .mark ',' j e :: ws)

instance [closes : Closes v w] : Stops v w := ⟨.inl closes⟩

theorem stops_comma (j : Bool) (e : Extent) (ws : List Token) : Stops [] (.mark ',' j e :: ws) :=
  ⟨.inr ⟨rfl, j, e, ws, rfl⟩⟩

/-! ## Agreement -/

/-- Whether tokens are within a size, which they reach only before a token has been taken. -/
def Fits (start : Bool) (n : ℕ) (ts : List Token) : Prop :=
  Token.sizeList ts < if start then n + 1 else n

theorem Fits.suffix (h : Fits start n us) (kept : us' <:+ us) : Fits start n us' :=
  Nat.lt_of_le_of_lt (Token.sizeList_le_of_isSuffix kept) h

theorem Fits.behind (h : Fits start n us) (kept : us' <:+ us) (shorter : us'.length < us.length) :
    Fits false n us' := by
  have smaller := Token.sizeList_lt_of_isSuffix kept shorter
  unfold Fits at h ⊢
  split at h
  · exact Nat.lt_of_lt_of_le smaller (Nat.le_of_lt_succ h)
  · exact Nat.lt_trans smaller h

/-- Whether `q` does in front of the end `w` what `p` does where it succeeds and leaves the end `v`
ahead. The group that the tokens are in may be another one: it matters to errors only. -/
class Agrees (v w : List Token) (s : Surrounding → Surrounding) (start : Bool) (n : ℕ)
    (p q : Parser α) : Prop where
  run : ∀ {us us' : List Token} {c d : Cursor} {a : α}, Fits start n us →
    p { c with rest := us ++ v } = .ok (a, { d with rest := us' ++ v }) →
    q { c with rest := us ++ w, inside := s c.inside } =
      .ok (a, { d with rest := us' ++ w, inside := s d.inside })

/-- Where an end is left ahead, it has been there all the time. -/
theorem exists_of_kept [Advances Remains p] (h : p { c with rest := us ++ v } = .ok (a, e))
    (kept : v <:+ e.rest) : ∃ us', us' <:+ us ∧ e = { e with rest := us' ++ v } := by
  obtain ⟨us', rest⟩ := kept
  have within : e.rest <:+ us ++ v := Advances.rest (R := Remains) h
  rw [← rest] at within
  obtain ⟨taken, whole⟩ := within
  rw [← List.append_assoc] at whole
  exact ⟨us', ⟨taken, List.append_cancel_right whole⟩, by rw [rest]⟩

namespace Agrees

theorem of_error (h : ∀ {c a d}, p c = .ok (a, d) → False) : Agrees v w s start n p q where
  run _ run := (h run).elim

theorem of_row (f : List Phrase → α) (g : List Phrase → List Phrase)
    (h : ∀ c, p c = .ok (f c.row, { c with row := g c.row })) : Agrees v w s start n p p where
  run _ run := by
    rw [h] at run ⊢
    simp only [Except.ok.injEq, Prod.mk.injEq, Cursor.mk.injEq] at run ⊢
    obtain ⟨answer, rest, inside, leftover, row⟩ := run
    exact ⟨answer, by rw [List.append_cancel_right rest], by rw [inside], leftover, row⟩

/-- A parser that looks at the tokens ahead. -/
theorem of_look (f : Cursor → α) (h : ∀ c, p c = .ok (f c, c))
    (same : ∀ us (c : Cursor),
      f { c with rest := us ++ v } = f { c with rest := us ++ w, inside := s c.inside }) :
    Agrees v w s start n p p where
  run _ run := by
    rw [h] at run ⊢
    simp only [Except.ok.injEq, Prod.mk.injEq, Cursor.mk.injEq] at run ⊢
    obtain ⟨answer, rest, inside, leftover, row⟩ := run
    exact ⟨(same _ _).symm.trans answer, by rw [List.append_cancel_right rest], by rw [inside],
      leftover, row⟩

theorem bind {f g : α → Parser β} [Advances Remains p] (behind : ∀ a, Advances Remains (f a))
    (first : Agrees v w s start n p q) (second : ∀ a, Agrees v w s start n (f a) (g a)) :
    Agrees v w s start n (p >>= f) (q >>= g) where
  run fits h := by
    obtain ⟨a, e, h, h'⟩ := run_bind_eq_ok.mp h
    have left : v <:+ e.rest :=
      (List.suffix_append _ _).trans (Advances.rest (R := Remains) h')
    obtain ⟨us, kept, same⟩ := exists_of_kept h left
    rw [same] at h h'
    exact run_bind_eq_ok.mpr ⟨a, _, first.run fits h, (second a).run (fits.suffix kept) h'⟩

/-- What comes behind a token has fewer tokens ahead. -/
theorem bind_behind {f g : α → Parser β} [Advances Remains p] [Consumes p]
    (behind : ∀ a, Advances Remains (f a)) (first : Agrees v w s start n p q)
    (second : ∀ a, Agrees v w s false n (f a) (g a)) : Agrees v w s start n (p >>= f) (q >>= g) where
  run {us₀ us' c d b} fits h := by
    obtain ⟨a, e, h, h'⟩ := run_bind_eq_ok.mp h
    have left : v <:+ e.rest :=
      (List.suffix_append _ _).trans (Advances.rest (R := Remains) h')
    obtain ⟨us, kept, same⟩ := exists_of_kept h left
    have shorter : e.rest.length < (us₀ ++ v).length := Consumes.shorter h
    rw [same, List.length_append, List.length_append] at shorter
    rw [same] at h h'
    exact run_bind_eq_ok.mpr ⟨a, _, first.run fits h,
      (second a).run (fits.behind kept (Nat.lt_of_add_lt_add_right shorter)) h'⟩

/-- What comes behind the answer yes has fewer tokens ahead. -/
theorem bind_told {p q : Parser Bool} {f g : Bool → Parser β} [Advances Remains p] [Tells p]
    (behind : ∀ a, Advances Remains (f a)) (first : Agrees v w s start n p q)
    (yes : Agrees v w s false n (f true) (g true)) (no : Agrees v w s start n (f false) (g false)) :
    Agrees v w s start n (p >>= f) (q >>= g) where
  run {us₀ us' c d b} fits h := by
    obtain ⟨a, e, h, h'⟩ := run_bind_eq_ok.mp h
    have left : v <:+ e.rest :=
      (List.suffix_append _ _).trans (Advances.rest (R := Remains) h')
    obtain ⟨us, kept, same⟩ := exists_of_kept h left
    rw [same] at h h'
    refine run_bind_eq_ok.mpr ⟨a, _, first.run fits h, ?_⟩
    cases a with
    | true =>
      have shorter := Tells.shorter h
      simp only [List.length_append] at shorter
      exact yes.run (fits.behind kept (Nat.lt_of_add_lt_add_right shorter)) h'
    | false => exact no.run (fits.suffix kept) h'

theorem ite {p' q' : Parser α} {t : Prop} [Decidable t] (first : Agrees v w s start n p q)
    (second : Agrees v w s start n p' q') :
    Agrees v w s start n (if t then p else p') (if t then q else q') := by
  split <;> assumption

/-- A parser that first takes what it needs from the cursor. -/
theorem get {f g : Cursor → Parser β}
    (h : ∀ us (c : Cursor),
      Agrees v w s start n (f { c with rest := us ++ v })
        (g { c with rest := us ++ w, inside := s c.inside })) :
    Agrees v w s start n (MonadState.get >>= f) (MonadState.get >>= g) where
  run {us us' c d a} fits run := by
    obtain ⟨_, _, got, run⟩ := run_bind_eq_ok.mp run
    cases got
    exact run_bind_eq_ok.mpr ⟨_, _, rfl, (h us c).run fits run⟩

theorem ahead {f g : List Token → Parser β}
    (h : ∀ us, Agrees v w s start n (f (us ++ v)) (g (us ++ w))) :
    Agrees v w s start n (Parser.ahead >>= f) (Parser.ahead >>= g) where
  run {us _ _ _ _} fits run := (h us).run fits run

theorem peek {test : List Token → Bool} [blind : Blind v w test] {f g : Bool → Parser β}
    (h : ∀ b, Agrees v w s start n (f b) (g b)) :
    Agrees v w s start n (Parser.peek test >>= f) (Parser.peek test >>= g) where
  run {us _ _ _ _} fits run := by
    have there := (h (test (us ++ v))).run fits run
    rw [blind.same us] at there
    exact there

/-- A parser that chooses by the tokens ahead, but not by their end. -/
theorem choose {f g : List Token → Parser β} (blind : Blind v w f)
    (h : ∀ ts, Agrees v w s start n (f ts) (g ts)) :
    Agrees v w s start n (Parser.ahead >>= f) (Parser.ahead >>= g) where
  run {us _ _ _ _} fits run := by
    have there : f (us ++ v) _ = _ := run
    rw [blind.same us] at there
    exact (h (us ++ w)).run fits there

theorem collect (h : Agrees v w s start n p q) :
    Agrees v w s start n (Parser.collect p) (Parser.collect q) where
  run {us us' c d x} fits run := by
    obtain ⟨⟨_, _, _, row⟩, read, parts, same⟩ := collect_eq_ok.mp run
    simp only [Cursor.mk.injEq] at same
    obtain ⟨rfl, rfl, rfl, outer⟩ := same
    have read' := h.run (c := ⟨[], c.inside, c.leftover, []⟩) (d := ⟨[], d.inside, d.leftover, row⟩)
      fits read
    exact collect_eq_ok.mpr ⟨_, read', parts, by simp only [outer]⟩

theorem node (h : Agrees v w s start n p q) :
    Agrees v w s start n (Parser.node k p) (Parser.node k q) where
  run {us us' c d x} fits run := by
    obtain ⟨⟨_, _, _, row⟩, read, same⟩ := node_eq_ok.mp run
    simp only [Cursor.mk.injEq] at same
    obtain ⟨rfl, rfl, rfl, outer⟩ := same
    have read' := h.run (c := ⟨[], c.inside, c.leftover, []⟩) (d := ⟨[], d.inside, d.leftover, row⟩)
      fits read
    exact node_eq_ok.mpr ⟨_, read', by simp only [outer]⟩

/-- The tokens of a whole text or group. -/
theorem run_alone (h : Agrees [] [] id start n p q) (fits : Fits start n c.rest)
    (run : p c = .ok (a, d)) : q c = .ok (a, d) := by
  have here (x : Cursor) : { x with rest := x.rest ++ [] } = x := by rw [List.append_nil]
  have there : p { c with rest := c.rest ++ [] } = .ok (a, { d with rest := d.rest ++ [] }) := by
    rw [here, here]
    exact run
  have alone : q { c with rest := c.rest ++ [] } = .ok (a, { d with rest := d.rest ++ [] }) :=
    h.run fits there
  rwa [here, here] at alone

/-- Inside of a group nothing comes behind the tokens. -/
theorem inGroup (delimiter : Delimiter) (missing : String) [ends : Stops v w]
    (h : Agrees [] [] id false n p q) :
    Agrees v w s start n (Parser.inGroup delimiter missing p)
      (Parser.inGroup delimiter missing q) where
  run {us us' c d a} fits run := by
    obtain ⟨body, o, cl, after, content, rest, read, same⟩ := inGroup_eq_ok.mp run
    simp only [Cursor.mk.injEq] at same
    obtain ⟨rfl, inside, leftover, row⟩ := same
    dsimp only at rest
    rcases us with _ | ⟨t, us⟩
    · obtain ⟨⟨⟨rfl, rfl⟩ | ⟨_, _, _, _, _, rfl, -⟩⟩⟩ | ⟨rfl, -⟩ := ends.ends
      all_goals cases rest
    · rw [List.cons_append] at rest
      obtain ⟨rfl, same⟩ := List.cons.inj rest
      have within : Fits false n body := by
        unfold Fits at fits ⊢
        simp only [Token.sizeList, Token.size] at fits
        split at fits <;> simp only [Bool.false_eq_true, if_false] <;> omega
      refine inGroup_eq_ok.mpr ⟨body, o, cl, us' ++ w, content, ?_, h.run_alone within read, ?_⟩
      · rw [List.append_cancel_right same]
        rfl
      · simp only [inside, leftover, row]

theorem pure (x : α) : Agrees v w s start n (pure x : Parser α) (pure x) :=
  of_row (fun _ => x) id fun _ => rfl

/-- A loop goes on as often in front of either end, since each repetition but the last takes a
token. -/
theorem repeatUpTo {p q : Parser Bool} [Advances Remains p] [Tells p]
    (h : Agrees v w s start n p q) (i j : ℕ) (fits : Fits start n us) (enough : us.length < i)
    (enough' : us.length < j)
    (run : Parser.repeatUpTo p i { c with rest := us ++ v } =
      .ok ((), { d with rest := us' ++ v })) :
    Parser.repeatUpTo q j { c with rest := us ++ w, inside := s c.inside } =
      .ok ((), { d with rest := us' ++ w, inside := s d.inside }) := by
  induction i generalizing us c j with
  | zero => omega
  | succ i ih =>
    cases j with
    | zero => omega
    | succ j =>
      obtain ⟨goesOn, e, once, run⟩ := run_bind_eq_ok.mp run
      have left : v <:+ e.rest :=
        (List.suffix_append _ _).trans (Advances.rest (R := Remains)
          (p := if goesOn then Parser.repeatUpTo p i else Pure.pure ()) run)
      obtain ⟨us₁, kept, same⟩ := exists_of_kept once left
      rw [same] at once run
      refine run_bind_eq_ok.mpr ⟨goesOn, _, h.run fits once, ?_⟩
      cases goesOn with
      | false => exact (Agrees.pure ()).run (fits.suffix kept) run
      | true =>
        have shorter := Tells.shorter once
        simp only [List.length_append] at shorter
        exact ih j (fits.suffix kept) (by omega) (by omega) run

end Agrees

-- A rule has more steps than the search for instances looks at by default.
set_option synthInstance.maxSize 100000

/-! ## Single steps -/

section
variable {f g : α → Parser β}

instance (p : Parser α) : Agrees [] [] id start n p p where
  run _ run := by
    simp only [List.append_nil] at run ⊢
    exact run

instance (x : α) : Agrees v w s start n (pure x : Parser α) (pure x) := .pure x

instance (priority := low) [Advances Remains p] [behind : ∀ a, Advances Remains (f a)]
    [first : Agrees v w s start n p q] [second : ∀ a, Agrees v w s start n (f a) (g a)] :
    Agrees v w s start n (p >>= f) (q >>= g) :=
  first.bind behind second

instance [Consumes p] [Advances Remains p] [behind : ∀ a, Advances Remains (f a)]
    [first : Agrees v w s true n p q] [second : ∀ a, Agrees v w s false n (f a) (g a)] :
    Agrees v w s true n (p >>= f) (q >>= g) :=
  first.bind_behind behind second

instance {p' q' : Parser α} (t : Prop) [Decidable t] [first : Agrees v w s start n p q]
    [second : Agrees v w s start n p' q'] :
    Agrees v w s start n (if t then p else p') (if t then q else q') :=
  first.ite second

instance (f : α → β) [h : Agrees v w s start n p q] : Agrees v w s start n (f <$> p) (f <$> q) where
  run fits run := by
    obtain ⟨a, run, same⟩ := map_eq_ok.mp run
    exact map_eq_ok.mpr ⟨a, h.run fits run, same⟩

instance [Agrees v w s start n p q] :
    Agrees v w s start n (discard p : Parser PUnit) (discard q : Parser PUnit) :=
  inferInstanceAs (Agrees v w s start n ((fun _ => PUnit.unit) <$> p) ((fun _ => PUnit.unit) <$> q))

instance (e e' : ParseError) : Agrees v w s start n (throw e : Parser α) (throw e') :=
  .of_error nofun

instance (priority := 50) {f g : Cursor → Parser β} [h : ∀ us (c : Cursor),
    Agrees v w s start n (f { c with rest := us ++ v })
      (g { c with rest := us ++ w, inside := s c.inside })] :
    Agrees v w s start n (get >>= f) (get >>= g) := .get h

instance (priority := 50) {f g : List Token → Parser β}
    [h : ∀ us, Agrees v w s start n (f (us ++ v)) (g (us ++ w))] :
    Agrees v w s start n (ahead >>= f) (ahead >>= g) := .ahead h

instance (fault : Fault) : Agrees v w s start n (fail fault : Parser α) (fail fault) :=
  .of_error nofun

instance (things : List String) :
    Agrees v w s start n (expected things : Parser α) (expected things) := .of_error nofun

instance (test : List Token → Bool) [blind : Blind v w test] :
    Agrees v w s start n (peek test) (peek test) :=
  .of_look (fun c => test c.rest) (fun _ => rfl) fun us _ => blind.same us

/-- Two tests may together be blind where the second one alone is not. -/
theorem agrees_peek_peek2 {f g : Bool → Parser α} (test other : List Token → Bool)
    [blind : Blind v w fun ts => test ts && !other (ts.drop 1)]
    (h : ∀ b, Agrees v w s start n (f b) (g b)) :
    Agrees v w s start n (peek test >>= fun a => peek2 other >>= fun b => f (a && !b))
      (peek test >>= fun a => peek2 other >>= fun b => g (a && !b)) where
  run {us us' c d a} fits run := by
    have same := blind.same us
    have there := (h (test (us ++ v) && !other ((us ++ v).drop 1))).run fits run
    rw [same] at there
    exact there

instance {f g : Bool → Parser β} (test : List Token → Bool) [Blind v w test]
    [h : ∀ b, Agrees v w s start n (f b) (g b)] :
    Agrees v w s start n (peek test >>= f) (peek test >>= g) := .peek h

/-- What comes behind a token may be looked at where the token has been seen. -/
instance {f g : Bool → Parser α} {p q : Parser α} (test other : List Token → Bool)
    [first : Blind v w test] [both : Blind v w fun ts => test ts && other (ts.drop 1)]
    [h : ∀ b, Agrees v w s start n (f b) (g b)] [h' : Agrees v w s start n p q] :
    Agrees v w s start n (do if ← peek test then peek2 other >>= f else p)
      (do if ← peek test then peek2 other >>= g else q) where
  run {us us' c d a} fits run := by
    have there : (if test (us ++ v) = true then peek2 other >>= f else p) _ = _ := run
    suffices here : (if test (us ++ w) = true then peek2 other >>= g else q) _ = _ from here
    have same := both.same us
    rw [← first.same us] at same ⊢
    cases seen : test (us ++ v) with
    | true =>
      simp only [seen, Bool.true_and] at same
      rw [seen, if_pos rfl] at there
      have found := (h (other ((us ++ v).drop 1))).run fits there
      rw [same] at found
      exact found
    | false =>
      rw [seen, if_neg Bool.false_ne_true] at there
      exact h'.run fits there

instance (x : Phrase) : Agrees v w s start n (emit x) (emit x) :=
  .of_row (fun _ => ()) (x :: ·) fun _ => rfl

instance (ps : List Phrase) : Agrees v w s start n (prepend ps) (prepend ps) :=
  .of_row (fun _ => ()) (fun
    | .node k parts :: before => .node k (ps ++ parts) :: before
    | row => row) fun c => by
      rcases c with ⟨rest, inside, leftover, _ | ⟨_ | _ | _, row⟩⟩ <;> rfl

instance : Agrees v w s start n lastKind? lastKind? :=
  .of_row (fun row => row.head?.bind Phrase.kind?) id fun _ => rfl

instance (row : List Phrase) :
    Agrees v w s start n (modify fun c => { c with row := row } : Parser Unit)
      (modify fun c => { c with row := row }) :=
  .of_row (fun _ => ()) (fun _ => row) fun _ => rfl

instance [h : Agrees v w s start n p q] : Agrees v w s start n (collect p) (collect q) := h.collect

instance [h : Agrees v w s start n p q] : Agrees v w s start n (node k p) (node k q) := h.node

instance [Advances Remains p] [Agrees v w s start n p q] :
    Agrees v w s start n (extend k p) (extend k q) := by
  unfold extend
  refine .get fun us c => ?_
  rcases c with ⟨_, _, _, _ | _⟩ <;> dsimp only <;> infer_instance

instance (d : Delimiter) (missing : String) [Stops v w] [h : Agrees [] [] id false n p q] :
    Agrees v w s start n (inGroup d missing p) (inGroup d missing q) := h.inGroup d missing

instance [Stops v w] [Agrees [] [] id false n p q] : Agrees v w s start n (parens p) (parens q) := by
  dsimp only [parens]; infer_instance

instance [Stops v w] [Agrees [] [] id false n p q] :
    Agrees v w s start n (brackets p) (brackets q) := by
  dsimp only [brackets]; infer_instance

instance [Stops v w] [Agrees [] [] id false n p q] : Agrees v w s start n (braces p) (braces q) := by
  dsimp only [braces]; infer_instance

instance {p q : Parser Bool} [Advances Remains p] [Tells p] [h : Agrees v w s start n p q] :
    Agrees v w s start n (repeatWhile p) (repeatWhile q) where
  run {us _ _ _ _} fits run := by
    have enough (tail : List Token) : us.length < (us ++ tail).length + 1 := by
      rw [List.length_append]
      exact Nat.lt_succ_of_le (Nat.le_add_right _ _)
    exact h.repeatUpTo _ _ fits (enough v) (enough w) run

instance {γ : Type} (xs : List γ) (f g : γ → PUnit → Parser (ForInStep PUnit)) (u : PUnit)
    [∀ x u, Advances Remains (f x u)] [each : ∀ x u, Agrees v w s start n (f x u) (g x u)] :
    Agrees v w s start n (forIn xs u f) (forIn xs u g) := by
  induction xs with
  | nil => exact inferInstanceAs (Agrees v w s start n (pure u) (pure u))
  | cons x xs ih =>
    rw [List.forIn_cons, List.forIn_cons]
    refine (each x u).bind (fun step => ?_) fun step => ?_
    · cases step with
      | done => exact inferInstanceAs (Advances Remains (pure _))
      | yield => exact inferInstance
    · cases step with
      | done => exact inferInstanceAs (Agrees v w s start n (pure _) (pure _))
      | yield => exact ih

end

/-! ## Whole texts and groups -/

section
variable {f g : α → Parser β}

instance {p q : Parser Bool} [Advances Remains p] [Agrees [] [] id start n p q] (i : ℕ) :
    Agrees [] [] id start n (repeatUpTo p i) (repeatUpTo q i) := by
  induction i with
  | zero => dsimp only [repeatUpTo]; infer_instance
  | succ i ih => dsimp only [repeatUpTo]; infer_instance

theorem Agrees.loop {p q : Parser Bool} (advances : Advances Remains p)
    (h : Agrees [] [] id start n p q) :
    Agrees [] [] id start n (Parser.repeatWhile p) (repeatWhile q) := by
  dsimp only [Parser.repeatWhile]; infer_instance

instance {p q : Parser Bool} [advances : Advances Remains p] [h : Agrees [] [] id start n p q] :
    Agrees [] [] id start n (repeatWhile p) (repeatWhile q) := .loop advances h

instance {p q : Parser Unit} [Advances Remains p] [Agrees [] [] id start n p q] :
    Agrees [] [] id start n (untilEnd p) (untilEnd q) := by
  dsimp only [untilEnd]; infer_instance

instance {p q : Parser Unit} (m : String) [Advances Remains p] [Agrees [] [] id start n p q] :
    Agrees [] [] id start n (separated m p) (separated m q) := by
  dsimp only [separated]; infer_instance

/-- A parser that is tried fails with the other one. -/
instance [there : Agrees [] [] id start n p q] [back : Agrees [] [] id start n q p] :
    Agrees [] [] id start n (attempt p) (attempt q) where
  run {us us' c d a} fits run := by
    simp only [List.append_nil, id_eq] at run ⊢
    unfold attempt at run ⊢
    cases tried : p ⟨us, c.inside, none, c.row⟩ with
    | ok x =>
      simp only [tried] at run
      simp only [there.run_alone (c := ⟨us, c.inside, none, c.row⟩) fits tried]
      exact run
    | error e =>
      simp only [tried] at run
      cases tried' : q ⟨us, c.inside, none, c.row⟩ with
      | ok x =>
        cases tried.symm.trans (back.run_alone (c := ⟨us, c.inside, none, c.row⟩) fits tried')
      | error e' => exact run

end

/-! ## Single tokens -/

/-- Whether a parser that succeeds takes some tokens and looks at no others. -/
class Picks (p : Parser α) : Prop where
  run : ∀ {c a d}, p c = .ok (a, d) → ∃ taken, c.rest = taken ++ d.rest ∧ d.inside = c.inside ∧
    ∀ us i, p { c with rest := taken ++ us, inside := i } =
      .ok (a, { d with rest := us, inside := i })

instance [picks : Picks p] : Agrees v w s start n p p where
  run {us us' c d a} _ run := by
    obtain ⟨taken, whole, inside, again⟩ := picks.run run
    rw [← List.append_assoc] at whole
    obtain rfl : us = taken ++ us' := List.append_cancel_right whole
    rw [List.append_assoc, show d.inside = c.inside from inside]
    exact again _ _

theorem agrees_ask {test : List Token → Bool} [blind : Blind v w test] {p r : Parser Unit}
    (fails : ∀ {c a d}, r c = .ok (a, d) → False)
    (picks : Picks (do if ← peek test then p else r)) : Agrees v w s start n
      (do
        if ← peek test then p; return true
        else return false : Parser Bool)
      (do
        if ← peek test then p; return true
        else return false) where
  run {us us' c d a} fits run := by
    obtain ⟨_, _, peeked, run⟩ := run_bind_eq_ok.mp run
    cases peeked
    split at run
    · rename_i seen
      obtain ⟨_, _, took, run⟩ := run_bind_eq_ok.mp run
      cases run
      have whole : (do if ← peek test then p else r : Parser Unit) { c with rest := us ++ v } = _ :=
        run_bind_eq_ok.mpr ⟨_, _, rfl, (congrFun (if_pos seen) _).trans took⟩
      have again := (inferInstance : Agrees v w s start n (do if ← peek test then p else r)
        (do if ← peek test then p else r)).run fits whole
      obtain ⟨_, _, peeked, again⟩ := run_bind_eq_ok.mp again
      cases peeked
      split at again
      · rename_i seen'
        exact run_bind_eq_ok.mpr ⟨_, _, rfl, (congrFun (if_pos seen') _).trans
          (run_bind_eq_ok.mpr ⟨_, _, again, rfl⟩)⟩
      · exact (fails again).elim
    · rename_i unseen
      have unseen' : ¬ test (us ++ w) = true := blind.same us ▸ unseen
      exact run_bind_eq_ok.mpr ⟨_, _, rfl, (congrFun (if_neg unseen') _).trans
        ((Agrees.pure false).run fits run)⟩

theorem picks_ahead {test : List Token → Bool} (none : test [] = false)
    (head : ∀ t ts us, test (t :: ts) = test (t :: us)) (things : List String) :
    Picks (do if ← peek test then take else expected things) where
  run {c a d} run := by
    obtain ⟨seen, _, peeked, run⟩ := run_bind_eq_ok.mp run
    cases peeked
    split at run
    · rename_i seen
      rcases c with ⟨_ | ⟨t, ts⟩, inside, leftover, row⟩
      · rw [none] at seen
        cases seen
      · rw [take_cons rfl] at run
        cases run
        refine ⟨[t], rfl, rfl, fun us i => run_bind_eq_ok.mpr ⟨_, _, rfl, ?_⟩⟩
        exact (congrFun (if_pos ((head t us ts).trans seen)) _).trans (take_cons rfl)
    · cases run

theorem picks_behind (test : List Token → Bool) (none : test [] = false)
    (head : ∀ t ts us, test (t :: ts) = test (t :: us)) (things : List String) :
    Picks (do
      if !(← peek test) then expected things
      take) := by
  suffices same : (do
      if !(← peek test) then expected things
      take) = (do if ← peek test then take else expected things) from
    same ▸ picks_ahead none head things
  funext c
  have left : (do
      if !(← peek test) then expected things
      take) c = (if (!test c.rest) = true then do expected things; take else take) c := rfl
  have right : (do if ← peek test then take else expected things) c =
      (if test c.rest = true then take else expected things) c := rfl
  rw [left, right]
  cases test c.rest <;> rfl

instance (x : String) : Picks (word x) :=
  picks_ahead rfl (fun t _ _ => by cases t <;> rfl) _

instance : Picks anyName := picks_ahead rfl (fun t _ _ => by cases t <;> rfl) _

instance : Picks lifetime := picks_ahead rfl (fun t _ _ => by cases t <;> rfl) _

instance : Picks stringLiteral := picks_ahead rfl (fun t _ _ => by cases t <;> rfl) _

instance : Picks name where
  run run := by
    obtain ⟨w, e, ts, rest, free, rfl⟩ := name_eq_ok.mp run
    exact ⟨[.name w e], rest, rfl, fun us i => name_eq_ok.mpr ⟨w, e, us, rfl, free, rfl⟩⟩

instance : Picks anyGroup where
  run {c a d} run := by
    rcases c with ⟨_ | ⟨_ | _ | _ | _ | ⟨_, body, _, _⟩, ts⟩, inside, leftover, row⟩
    case cons.group =>
      cases run
      exact ⟨[_], rfl, rfl, fun us i => rfl⟩
    all_goals cases run

/-- A sign belongs to the number behind it. -/
instance : Picks literal where
  run {c a d} run := by
    rcases c with ⟨_ | ⟨t, ts⟩, inside, leftover, row⟩
    · cases run
    cases t with
    | name w e =>
      have step (us : List Token) (i : Surrounding) :
          literal ⟨.name w e :: us, i, leftover, row⟩ =
            (if (w == "true" || w == "false") = true then take else expected ["literal"])
              ⟨.name w e :: us, i, leftover, row⟩ := rfl
      rw [step] at run
      split at run
      · cases run
        exact ⟨[_], rfl, rfl, fun us i => (step us i).trans (congrFun (if_pos ‹_›) _)⟩
      · cases run
    | mark x j e =>
      by_cases minus : x = '-'
      · subst minus
        rcases ts with _ | ⟨_ | _ | _ | ⟨text, e'⟩ | _, ts⟩
        case cons.literal =>
          have step (us : List Token) (i : Surrounding) :
              literal ⟨.mark '-' j e :: .literal text e' :: us, i, leftover, row⟩ =
                (if text.toList.head?.any Char.isDigit = true then do
                  skip; emit (.token (.mark '-' false e)); take
                else expected ["literal"])
                  ⟨.mark '-' j e :: .literal text e' :: us, i, leftover, row⟩ := rfl
          rw [step] at run
          split at run
          · cases run
            exact ⟨[_, _], rfl, rfl, fun us i => (step us i).trans (congrFun (if_pos ‹_›) _)⟩
          · cases run
        all_goals cases run
      · have fails (rest : List Token) (same : rest = .mark x j e :: ts) :
            literal ⟨rest, inside, leftover, row⟩ =
              (expected ["literal"] : Parser Unit) ⟨rest, inside, leftover, row⟩ := by
          unfold literal
          refine (run_bind_of_ok (p := get) rfl).trans ?_
          dsimp only
          split
          · exact absurd (Token.mark.inj (List.cons.inj same).1).1.symm minus
          · refine (run_bind_of_ok rfl).trans ?_
            simp [same, Ahead.literal, minus]
        cases (fails _ rfl).symm.trans run
    | literal text e =>
      cases run
      exact ⟨[_], rfl, rfl, fun us i => rfl⟩
    | lifetime => cases run
    | group => cases run
/-- An operator that is ahead is made up of the first tokens, whatever comes behind them. -/
theorem exists_of_markChars {cs : List Char} {ts : List Token}
    (h : Ahead.markChars cs ts = true) : ∃ taken us ps, ts = taken ++ us ∧
      taken.length = cs.length ∧ ∀ us', Ahead.markChars cs (taken ++ us') = true ∧
        ∀ c : Cursor, c.rest = taken ++ us' →
          takeMarks cs.length c = .ok ((), { c with rest := us', row := ps ++ c.row }) := by
  induction cs generalizing ts with
  | nil =>
    refine ⟨[], ts, [], rfl, rfl, fun us' => ⟨rfl, fun c rest => ?_⟩⟩
    rcases c with ⟨_, inside, leftover, row⟩
    cases rest
    rfl
  | cons x cs ih =>
    obtain ⟨j, e, us, rfl, more⟩ := markChars_cons h
    obtain ⟨taken, us, ps, rfl, length, again⟩ := ih more
    refine ⟨.mark x j e :: taken, us, ps ++ [.token (.mark x (cs.length != 0) e)], rfl,
      congrArg (· + 1) length, fun us' => ⟨?_, fun c rest => ?_⟩⟩
    · cases cs with
      | nil => simp [Ahead.markChars]
      | cons y cs =>
        have joined : j = true := by
          simp only [Ahead.markChars, Bool.and_eq_true] at h
          exact h.1.2
        simpa [Ahead.markChars, joined] using (again us').1
    · rw [List.length_cons, takeMarks_succ _ rest, (again us').2 _ rfl, List.append_assoc]
      rfl

instance (m : String) : Picks (mark m) where
  run {c a d} run := by
    obtain ⟨seen, _, peeked, run⟩ := run_bind_eq_ok.mp run
    cases peeked
    split at run
    · rename_i seen
      obtain ⟨taken, us, ps, rest, -, again⟩ := exists_of_markChars seen
      have took := (again us).2 c rest
      rw [String.length_toList] at took
      cases run.symm.trans took
      refine ⟨taken, rest, rfl, fun us' i => run_bind_eq_ok.mpr ⟨_, _, rfl, ?_⟩⟩
      have took' := (again us').2 { c with rest := taken ++ us', inside := i } rfl
      rw [String.length_toList] at took'
      exact (congrFun (if_pos (again us').1) _).trans took'
    · cases run

theorem picks_drop (m : String) {r : Parser Unit} (fails : ∀ {c a d}, r c = .ok (a, d) → False) :
    Picks (do if ← peek (Ahead.mark m) then dropMark m else r) where
  run {c a d} run := by
    obtain ⟨seen, _, peeked, run⟩ := run_bind_eq_ok.mp run
    cases peeked
    split at run
    · rename_i seen
      obtain ⟨taken, us, _, rest, length, again⟩ := exists_of_markChars seen
      rw [String.length_toList] at length
      have dropped (us : List Token) (i : Surrounding) :
          dropMark m { c with rest := taken ++ us, inside := i } =
            .ok ((), { c with rest := us, inside := i }) := by
        refine Eq.trans (b := .ok ((), { c with
          rest := (taken ++ us).drop m.length, inside := i })) rfl ?_
        rw [← length, List.drop_left]
      have here := dropped us c.inside
      rw [← rest] at here
      obtain ⟨-, rfl⟩ := Prod.mk.inj (Except.ok.inj (run.symm.trans here))
      exact ⟨taken, rest, rfl, fun us' i => run_bind_eq_ok.mpr ⟨_, _, rfl,
        (congrFun (if_pos (again us').1) _).trans (dropped us' i)⟩⟩
    · exact (fails run).elim

section
variable [ends : Closes v w]

theorem ne_append_cons {α : Type} (xs ys : List α) (x : α) : ys ≠ xs ++ x :: ys := by
  intro same
  have length := congrArg List.length same
  simp only [List.length_append, List.length_cons] at length
  omega

theorem agrees_drop (k : ℕ) : Agrees v w s start n
    (modify fun c => { c with rest := c.rest.drop k } : Parser Unit)
    (modify fun c => { c with rest := c.rest.drop k }) where
  run {us us' c d a} _ run := by
    have dropped : (modify fun c => { c with rest := c.rest.drop k } : Parser Unit)
        { c with rest := us ++ v } = .ok ((), { c with rest := (us ++ v).drop k }) := rfl
    rw [dropped] at run
    simp only [Except.ok.injEq, Prod.mk.injEq, Cursor.mk.injEq] at run
    obtain ⟨-, rest, inside, leftover, row⟩ := run
    have dropped' : (us ++ w).drop k = us' ++ w := by
      obtain ⟨rfl, rfl⟩ | ⟨j, j', e, vs, ws, rfl, rfl⟩ := ends.ends
      · exact rest
      · rcases Nat.lt_or_ge us.length k with beyond | within
        · have length := congrArg List.length rest
          simp only [List.length_drop, List.length_append, List.length_cons] at length
          omega
        · rw [List.drop_append_of_le_length within] at rest ⊢
          rw [List.append_cancel_right rest]
    have there : (modify fun c => { c with rest := c.rest.drop k } : Parser Unit)
        { c with rest := us ++ w, inside := s c.inside } =
          .ok ((), { c with rest := (us ++ w).drop k, inside := s c.inside }) := rfl
    rw [there, dropped', inside, leftover, row]

instance : Agrees v w s start n skip skip := agrees_drop 1

instance (m : String) : Agrees v w s start n (dropMark m) (dropMark m) := agrees_drop m.length

instance : Agrees v w s start n take take where
  run {us us' c d a} _ run := by
    rcases us with _ | ⟨t, us⟩
    · obtain ⟨rfl, rfl⟩ | ⟨j, j', e, vs, ws, rfl, rfl⟩ := ends.ends
      · have nothing (i : Surrounding) :
            take { c with rest := [] ++ [], inside := i } = .ok ((), { c with rest := [], inside := i }) :=
          rfl
        rw [nothing] at run ⊢
        simp only [Except.ok.injEq, Prod.mk.injEq, Cursor.mk.injEq] at run ⊢
        exact ⟨run.1, run.2.1, congrArg s run.2.2.1, run.2.2.2⟩
      · rw [take_cons rfl] at run
        simp only [Except.ok.injEq, Prod.mk.injEq, Cursor.mk.injEq] at run
        exact absurd run.2.1 (ne_append_cons _ _ _)
    · have taken (tail : List Token) (i : Surrounding) :
          take { c with rest := t :: us ++ tail, inside := i } =
            .ok ((), { c with rest := us ++ tail, inside := i, row := .token t :: c.row }) :=
        take_cons rfl
      rw [taken] at run
      rw [taken]
      simp only [Except.ok.injEq, Prod.mk.injEq, Cursor.mk.injEq] at run
      obtain ⟨-, rest, inside, leftover, row⟩ := run
      simp only [List.append_cancel_right rest, inside, leftover, row]

end

/-! ### Tests -/

/-- A test of what comes behind tokens that no end is among. -/
theorem blind_behind (k : ℕ) (test other : List Token → Bool) [one : Blind v w test]
    [two : Blind v w other] (fits : ∀ us, test (us ++ v) = true → k ≤ us.length) :
    Blind v w fun ts => test ts && other (ts.drop k) where
  same us := by
    rw [← one.same us]
    cases seen : test (us ++ v) with
    | false => rfl
    | true =>
      have enough := fits us seen
      rw [List.drop_append_of_le_length enough, List.drop_append_of_le_length enough, two.same]

section
variable [ends : Stops v w]

instance (f : List Token → β) : Blind [] [] f := ⟨fun _ => rfl⟩

instance (test : List Token → Bool) (other : List Token → Bool) [one : Blind v w test]
    [two : Blind v w other] : Blind v w fun ts => test ts || other ts :=
  ⟨fun us => by simp only [one.same us, two.same us]⟩

instance (test : List Token → Bool) (other : List Token → Bool) [one : Blind v w test]
    [two : Blind v w other] : Blind v w fun ts => test ts && other ts :=
  ⟨fun us => by simp only [one.same us, two.same us]⟩

instance (test : List Token → Bool) [one : Blind v w test] : Blind v w fun ts => !test ts :=
  ⟨fun us => by simp only [one.same us]⟩

instance (x : β) : Blind v w fun _ => x := ⟨fun _ => rfl⟩

theorem blind_of_first {f : List Token → β} (head : ∀ t ts us, f (t :: ts) = f (t :: us))
    (mark : ∀ j j' e ts us, f (.mark '>' j e :: ts) = f (.mark '>' j' e :: us))
    (comma : ∀ j e ts, f [] = f (.mark ',' j e :: ts)) : Blind v w f where
  same us := by
    rcases us with _ | ⟨t, us⟩
    · obtain ⟨⟨⟨rfl, rfl⟩ | ⟨j, j', e, vs, ws, rfl, rfl⟩⟩⟩ | ⟨rfl, j, e, ws, rfl⟩ := ends.ends
      · rfl
      · exact mark j j' e vs ws
      · exact comma j e ws
    · exact head t _ _

instance : Blind v w Ahead.anyName :=
  blind_of_first (fun t _ _ => by cases t <;> rfl) (fun _ _ _ _ _ => rfl) fun _ _ _ => rfl

instance : Blind v w Ahead.name :=
  blind_of_first (fun t _ _ => by cases t <;> rfl) (fun _ _ _ _ _ => rfl) fun _ _ _ => rfl

instance (x : String) : Blind v w (Ahead.word x) :=
  blind_of_first (fun t _ _ => by cases t <;> rfl) (fun _ _ _ _ _ => rfl) fun _ _ _ => rfl

instance (xs : List String) : Blind v w (Ahead.oneOf xs) :=
  blind_of_first (fun t _ _ => by cases t <;> rfl) (fun _ _ _ _ _ => rfl) fun _ _ _ => rfl

instance : Blind v w Ahead.lifetime :=
  blind_of_first (fun t _ _ => by cases t <;> rfl) (fun _ _ _ _ _ => rfl) fun _ _ _ => rfl

instance (d : Delimiter) : Blind v w (Ahead.group d) :=
  blind_of_first (fun t _ _ => by cases t <;> rfl) (fun _ _ _ _ _ => rfl) fun _ _ _ => rfl

instance : Blind v w Ahead.stringLiteral :=
  blind_of_first (fun t _ _ => by cases t <;> rfl) (fun _ _ _ _ _ => rfl) fun _ _ _ => rfl

/-- Neither is a closing bracket or a comma the sign of a number, nor is it one of the numbers. -/
instance : Blind v w Ahead.literal where
  same us := by
    obtain ⟨⟨⟨rfl, rfl⟩ | ⟨j, j', e, vs, ws, rfl, rfl⟩⟩⟩ | ⟨rfl, j, e, ws, rfl⟩ := ends.ends
    · rfl
    all_goals
      rcases us with _ | ⟨_ | ⟨x, _, _⟩ | _ | _ | _, us⟩
      · rfl
      case cons.mark =>
        by_cases minus : x = '-'
        · subst minus
          rcases us with _ | ⟨_ | _ | _ | _ | _, us⟩ <;> rfl
        · simp [Ahead.literal, minus]
      all_goals rfl

theorem markChars_append {cs : List Char} (free : '>' ∉ cs.dropLast)
    (comma : Closes v w ∨ ',' ∉ cs) :
    Ahead.markChars cs (us ++ v) = Ahead.markChars cs (us ++ w) := by
  obtain ⟨⟨⟨rfl, rfl⟩ | ⟨j, j', e, vs, ws, rfl, rfl⟩⟩⟩ | ⟨rfl, j, e, ws, rfl⟩ := ends.ends
  · rfl
  · clear comma
    induction cs generalizing us with
    | nil => rfl
    | cons x cs ih =>
      rcases cs with _ | ⟨y, cs⟩
      · rcases us with _ | ⟨_ | _ | _ | _ | _, us⟩ <;> rfl
      · rw [List.dropLast_cons_cons, List.mem_cons, not_or] at free
        rcases us with _ | ⟨_ | _ | _ | _ | _, us⟩
        · have other : (x == '>') = false := by simpa using Ne.symm free.1
          simp [Ahead.markChars, other]
        all_goals try rfl
        simp only [List.cons_append, Ahead.markChars, ih free.2]
  · replace comma : ',' ∉ cs := comma.resolve_left fun ⟨closes⟩ => by simp at closes
    clear free
    induction cs generalizing us with
    | nil => rfl
    | cons x cs ih =>
      rw [List.mem_cons, not_or] at comma
      have other : (x == ',') = false := by simpa using Ne.symm comma.1
      rcases cs with _ | ⟨y, cs⟩
      · rcases us with _ | ⟨_ | _ | _ | _ | _, us⟩ <;> first | rfl | simp [Ahead.markChars, other]
      · rcases us with _ | ⟨_ | _ | _ | _ | _, us⟩
        · simp [Ahead.markChars, other]
        all_goals try rfl
        simp only [List.cons_append, Ahead.markChars, ih comma.2]

instance (m : String) [operator : InnerOperator m] : Blind v w (Ahead.mark m) :=
  ⟨fun _ => markChars_append operator.free (.inr operator.comma)⟩

instance (m : String) [closes : Closes v w] [operator : Operator m] : Blind v w (Ahead.mark m) :=
  ⟨fun _ => markChars_append operator.free (.inl closes)⟩

theorem test_end {test : List Token → Bool} (ends : Stops v w) (none : test [] = false)
    (mark : ∀ j e vs, test (.mark '>' j e :: vs) = false) : test v = false := by
  obtain ⟨⟨⟨rfl, rfl⟩ | ⟨j, j', e, vs, ws, rfl, rfl⟩⟩⟩ | ⟨rfl, -⟩ := ends.ends
  · exact none
  · exact mark j e vs
  · exact none

theorem blind_behindFirst (test other : List Token → Bool) [Blind v w test] [Blind v w other]
    (none : test [] = false) (mark : ∀ j e vs, test (.mark '>' j e :: vs) = false) :
    Blind v w fun ts => test ts && other (ts.drop 1) :=
  blind_behind 1 test other fun us seen => by
    cases us with
    | nil => cases (test_end ends none mark).symm.trans seen
    | cons t us => exact Nat.succ_pos _

theorem blind_behindColons (test : List Token → Bool) [Blind v w test] :
    Blind v w fun ts => Ahead.mark "::" ts && test (ts.drop 2) := by
  refine blind_behind 2 _ _ fun us seen => ?_
  rcases us with _ | ⟨t, _ | ⟨t', us⟩⟩
  · cases (test_end ends rfl (by simp [Ahead.mark, Ahead.markChars])).symm.trans seen
  · obtain ⟨⟨⟨rfl, rfl⟩ | ⟨j, j', e, vs, ws, rfl, rfl⟩⟩⟩ | ⟨rfl, -⟩ := ends.ends
    all_goals cases t <;> simp [Ahead.mark, Ahead.markChars] at seen
  · simp

/-- A test of the first token, where a parser fails that finds nothing. -/
theorem agrees_peek_consumes {test : List Token → Bool} (none : test [] = false)
    (head : ∀ t ts us, test (t :: ts) = test (t :: us))
    (mark : ∀ j j' e ts us, test (.mark '>' j e :: ts) = test (.mark '>' j' e :: us))
    {p q p' q' : Parser α} [consumes : Consumes p'] (yes : Agrees v w s start n p q)
    (no : Agrees v w s start n p' q') :
    Agrees v w s start n (do if ← peek test then p else p') (do if ← peek test then q else q') where
  run {us us' c d a} fits run := by
    have run : (if test (us ++ v) = true then p else p') _ = _ := run
    have there := (yes.ite no).run fits run
    suffices same : test (us ++ v) = test (us ++ w) by
      rw [same] at there
      exact there
    rcases us with _ | ⟨t, us⟩
    · obtain ⟨⟨⟨rfl, rfl⟩ | ⟨j, j', e, vs, ws, rfl, rfl⟩⟩⟩ | ⟨rfl, j, e, ws, rfl⟩ := ends.ends
      · rfl
      · exact mark j j' e vs ws
      · rw [List.nil_append, none, if_neg Bool.false_ne_true] at run
        exact absurd (consumes.shorter run) (Nat.not_lt_zero _)
    · exact head t _ _

/-- A lifetime that a plus sign follows is the beginning of a type. -/
instance : Blind v w fun ts => Ahead.lifetime ts && !Ahead.mark "+" (ts.drop 1) :=
  blind_behindFirst Ahead.lifetime (fun ts => !Ahead.mark "+" ts) rfl fun _ _ _ => rfl

instance (x : String) : Agrees v w s start n (word? x) (word? x) :=
  agrees_ask (r := expected ["`" ++ x ++ "`"]) nofun (inferInstanceAs (Picks (word x)))

instance : Agrees v w s start n lifetime? lifetime? :=
  agrees_ask (r := expected ["lifetime"]) nofun (inferInstanceAs (Picks lifetime))

instance (m : String) [Blind v w (Ahead.mark m)] : Agrees v w s start n (mark? m) (mark? m) :=
  agrees_ask (r := do throw ((← get).plainError (.expected ["`" ++ m ++ "`"]))) nofun
    (inferInstanceAs (Picks (mark m)))

/-- What is dropped if it has been seen. -/
instance (m : String) [Blind v w (Ahead.mark m)] {f g : PUnit → Parser α} {p q : Parser α}
    [Advances Remains p] [∀ u, Advances Remains (f u)]
    [h : ∀ u, Agrees v w s start n (f u) (g u)] [h' : Agrees v w s start n p q] :
    Agrees v w s start n (do if ← peek (Ahead.mark m) then dropMark m >>= f else p)
      (do if ← peek (Ahead.mark m) then dropMark m >>= g else q) := by
  have split (f : PUnit → Parser α) (p : Parser α) :
      (do if ← peek (Ahead.mark m) then dropMark m >>= f else p) = (do
        if ← (do if ← peek (Ahead.mark m) then dropMark m; return true else return false) then
          f ()
        else p) := by
    funext c
    have left : (do if ← peek (Ahead.mark m) then dropMark m >>= f else p) c =
        (if Ahead.mark m c.rest = true then dropMark m >>= f else p) c := rfl
    have right : (do
        if ← (do if ← peek (Ahead.mark m) then dropMark m; return true else return false) then
          f ()
        else p) c = ((if Ahead.mark m c.rest = true then do dropMark m; return true
          else return false) >>= fun b => if b = true then f () else p) c := rfl
    rw [left, right]
    cases Ahead.mark m c.rest <;> rfl
  rw [split, split]
  refine .bind (fun b => ?_) (agrees_ask (r := expected []) nofun (picks_drop m nofun)) fun b => ?_
  all_goals cases b <;> infer_instance

end

section
variable [Closes v w]

instance : Blind v w (List.isEmpty : List Token → Bool) where
  same us := by
    obtain ⟨rfl, rfl⟩ | ⟨j, j', e, vs, ws, rfl, rfl⟩ := Closes.ends (v := v) (w := w)
    · rfl
    · cases us <;> rfl

instance : Agrees v w s start n atEnd atEnd :=
  .of_look (fun c => c.rest.isEmpty) (fun _ => rfl) fun us _ =>
    Blind.same (f := (List.isEmpty : List Token → Bool)) us

end

/-! ### Tokens as they are written -/

theorem verbatim_eq_ok : verbatim k p c = .ok (a, d) ↔ ∃ e, p { c with row := [] } = .ok (a, e) ∧
    d = { e with
      row := .node k ((c.rest.take (c.rest.length - e.rest.length)).map .token) :: c.row } := by
  constructor
  · intro h
    obtain ⟨_, _, got, h⟩ := run_bind_eq_ok.mp h
    cases got
    obtain ⟨⟨a', parts⟩, _, collected, h⟩ := run_bind_eq_ok.mp h
    obtain ⟨e, read, -, rfl⟩ := collect_eq_ok.mp collected
    cases h
    exact ⟨e, read, rfl⟩
  · rintro ⟨e, read, rfl⟩
    refine run_bind_eq_ok.mpr ⟨_, _, rfl, run_bind_eq_ok.mpr
      ⟨(a, _), _, collect_eq_ok.mpr ⟨e, read, rfl, rfl⟩, rfl⟩⟩

/-- What is taken is the same in front of either end. -/
theorem take_append (us us' v : List Token) :
    (us ++ v).take ((us ++ v).length - (us' ++ v).length) =
    us.take (us.length - us'.length) := by
  rw [List.length_append, List.length_append, Nat.add_sub_add_right,
    List.take_append_of_le_length (Nat.sub_le _ _)]

instance [h : Agrees v w s start n p q] : Agrees v w s start n (verbatim k p) (verbatim k q) where
  run {us us' c d a} fits run := by
    obtain ⟨⟨_, _, _, row⟩, read, same⟩ := verbatim_eq_ok.mp run
    simp only [Cursor.mk.injEq] at same
    obtain ⟨rfl, rfl, rfl, outer⟩ := same
    have read' := h.run (c := ⟨[], c.inside, c.leftover, []⟩) (d := ⟨[], d.inside, d.leftover, row⟩)
      fits read
    rw [take_append] at outer
    refine verbatim_eq_ok.mpr ⟨_, read', ?_⟩
    simp only [take_append, outer]

variable {k' : Kind}

theorem collect_or_written_eq_ok {p : Parser Bool} {u : Unit} :
    (do
      let before := (← get).rest
      let (ordinary, parts) ← collect p
      if ordinary then emit (.node k parts) else emitWritten k' before : Parser Unit) c =
        .ok (u, d) ↔
      ∃ ordinary e, p { c with row := [] } = .ok (ordinary, e) ∧ d = { e with
        row := (if ordinary then Phrase.node k e.row.reverse
          else .node k' ((c.rest.take (c.rest.length - e.rest.length)).map .token)) :: c.row } := by
  constructor
  · intro h
    obtain ⟨_, _, got, h⟩ := run_bind_eq_ok.mp h
    cases got
    obtain ⟨⟨ordinary, parts⟩, _, collected, h⟩ := run_bind_eq_ok.mp h
    obtain ⟨e, read, rfl, rfl⟩ := collect_eq_ok.mp collected
    refine ⟨ordinary, e, read, ?_⟩
    cases ordinary <;> cases h <;> rfl
  · rintro ⟨ordinary, e, read, rfl⟩
    refine run_bind_eq_ok.mpr ⟨_, _, rfl, run_bind_eq_ok.mpr
      ⟨(ordinary, _), _, collect_eq_ok.mpr ⟨e, read, rfl, rfl⟩, ?_⟩⟩
    cases ordinary <;> rfl

/-- A phrase of what is read, or of the tokens as they are written. -/
instance {p q : Parser Bool} [h : Agrees v w s start n p q] :
    Agrees v w s start n
      (do
        let before := (← get).rest
        let (ordinary, parts) ← collect p
        if ordinary then emit (.node k parts) else emitWritten k' before)
      (do
        let before := (← get).rest
        let (ordinary, parts) ← collect q
        if ordinary then emit (.node k parts) else emitWritten k' before) where
  run {us us' c d a} fits run := by
    obtain ⟨ordinary, ⟨_, _, _, row⟩, read, same⟩ := collect_or_written_eq_ok.mp run
    simp only [Cursor.mk.injEq] at same
    obtain ⟨rfl, rfl, rfl, outer⟩ := same
    have read' := h.run (c := ⟨[], c.inside, c.leftover, []⟩) (d := ⟨[], d.inside, d.leftover, row⟩)
      fits read
    rw [take_append] at outer
    refine collect_or_written_eq_ok.mpr ⟨ordinary, _, read', ?_⟩
    simp only [take_append, outer]

end Parser
end FormulaBinding
