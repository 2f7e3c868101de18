import FormulaBinding.Proofs.Grammar.Remainder
import FormulaBinding.Proofs.Token.Words

/-!
# What a reading adds to the row

A parser adds phrases to the row of its cursor. That all of them have a property is shown step by
step, for tokens ahead of a class that is closed under ends.
-/

namespace FormulaBinding

/-- Whether a phrase is a token, or plays one of some roles. -/
def Phrase.IsLoose (ks : List Kind) : Phrase → Prop
  | token _ => True
  | node k _ => k ∈ ks
  | group .. => False

abbrev Phrase.Anything (_ : Phrase) : Prop := True

namespace Parser

/-- A class of token lists that contains the ends of its members. -/
class Ends (S : List Token → Prop) : Prop where
  suffix : ∀ {ts us}, S ts → us <:+ ts → S us

instance : Ends fun _ => True := ⟨fun _ _ => trivial⟩

instance : Ends Token.AreProper where
  suffix h end_ := by
    rw [Token.areProper_iff] at *
    exact fun t ht => h t (end_.subset ht)

/-- Whether all tokens have a property of phrases. -/
class AdmitsTokens (φ : Phrase → Prop) : Prop where
  token : ∀ t, φ (.token t)

/-- Whether all groups have a property of phrases. -/
class AdmitsGroups (φ : Phrase → Prop) : Prop where
  group : ∀ d ps o c, φ (.group d ps o c)

/-- Whether all phrases of a role have a property. -/
class Admits (φ : Phrase → Prop) (k : Kind) : Prop where
  node : ∀ parts, φ (.node k parts)

instance (ks : List Kind) : AdmitsTokens (Phrase.IsLoose ks) := ⟨fun _ => trivial⟩

instance (k : Kind) (ks : List Kind) : Admits (Phrase.IsLoose (k :: ks)) k :=
  ⟨fun _ => List.mem_cons_self⟩

instance (k l : Kind) (ks : List Kind) [h : Admits (Phrase.IsLoose ks) k] :
    Admits (Phrase.IsLoose (l :: ks)) k :=
  ⟨fun parts => List.mem_cons_of_mem l (h.node parts)⟩

instance : AdmitsTokens Phrase.Anything := ⟨fun _ => trivial⟩

instance : AdmitsGroups Phrase.Anything := ⟨fun _ _ _ _ => trivial⟩

instance (k : Kind) : Admits Phrase.Anything k := ⟨fun _ => trivial⟩

/-- Whether a parser that succeeds leaves the row as it is but for new phrases with a property. -/
class Adds (S : List Token → Prop) (φ : Phrase → Prop) {α : Type} (p : Parser α) : Prop where
  row : ∀ {c a d}, S c.rest → p c = .ok (a, d) →
    ∃ ps, d.row = ps ++ c.row ∧ ∀ q ∈ ps, φ q

variable {S : List Token → Prop} {φ : Phrase → Prop} {α β : Type} {p : Parser α}

namespace Adds

theorem of_row_eq (h : ∀ {c a d}, p c = .ok (a, d) → d.row = c.row) : Adds S φ p where
  row _ run := ⟨[], h run, nofun⟩

theorem of_row_cons (h : ∀ {c a d}, p c = .ok (a, d) → ∃ q, d.row = q :: c.row ∧ φ q) :
    Adds S φ p where
  row _ run := by
    obtain ⟨q, row, hq⟩ := h run
    exact ⟨[q], row, by simpa using hq⟩

theorem bind [Ends S] [Advances Remains p] {f : α → Parser β} (first : Adds S φ p)
    (second : ∀ a, Adds S φ (f a)) : Adds S φ (p >>= f) where
  row {c b d} inS h := by
    obtain ⟨a, e, h, h'⟩ := run_bind_eq_ok.mp h
    have left : e.rest <:+ c.rest := Advances.rest (R := Remains) h
    obtain ⟨ps, row, hps⟩ := first.row inS h
    obtain ⟨qs, row', hqs⟩ := (second a).row (Ends.suffix inS left) h'
    refine ⟨qs ++ ps, by rw [row', row, List.append_assoc], fun q hq => ?_⟩
    exact (List.mem_append.mp hq).elim (hqs q) (hps q)

theorem ite {q : Parser α} {t : Prop} [Decidable t] (first : Adds S φ p) (second : Adds S φ q) :
    Adds S φ (if t then p else q) := by
  split <;> assumption

theorem emit {q : Phrase} (h : φ q) : Adds S φ (Parser.emit q) :=
  .of_row_cons fun run => by cases run; exact ⟨q, rfl, h⟩

theorem node {k : Kind} (h : ∀ parts, φ (.node k parts)) : Adds S φ (Parser.node k p) :=
  .of_row_cons fun run => by
    obtain ⟨e, -, rfl⟩ := node_eq_ok.mp run
    exact ⟨_, rfl, h _⟩

end Adds

instance (x : α) : Adds S φ (pure x : Parser α) := .of_row_eq fun h => by cases h; rfl

instance [Ends S] [Advances Remains p] (f : α → Parser β) [first : Adds S φ p]
    [second : ∀ a, Adds S φ (f a)] : Adds S φ (p >>= f) :=
  first.bind second

instance (q : Parser α) (t : Prop) [Decidable t] [first : Adds S φ p] [second : Adds S φ q] :
    Adds S φ (if t then p else q) :=
  first.ite second

instance (f : α → β) [adds : Adds S φ p] : Adds S φ (f <$> p) where
  row inS h := by
    obtain ⟨a, h, -⟩ := map_eq_ok.mp h
    exact adds.row inS h

instance [Adds S φ p] : Adds S φ (discard p : Parser PUnit) :=
  inferInstanceAs (Adds S φ ((fun _ => PUnit.unit) <$> p))

instance : Adds S φ (get : Parser Cursor) := .of_row_eq fun h => by cases h; rfl

instance (e : ParseError) : Adds S φ (throw e : Parser α) := .of_row_eq nofun

instance (test : List Token → Bool) : Adds S φ (peek test) := .of_row_eq fun h => by cases h; rfl

instance (test : List Token → Bool) : Adds S φ (peek2 test) := .of_row_eq fun h => by cases h; rfl

instance : Adds S φ atEnd := .of_row_eq fun h => by cases h; rfl

instance : Adds S φ ahead := .of_row_eq fun h => by cases h; rfl

instance (fault : Fault) : Adds S φ (fail fault : Parser α) := .of_row_eq nofun

instance (things : List String) : Adds S φ (expected things : Parser α) := .of_row_eq nofun

instance : Adds S φ skip := .of_row_eq fun h => by cases h; rfl

instance : Adds S φ (collect p) := .of_row_eq fun h => by
  obtain ⟨e, -, -, rfl⟩ := collect_eq_ok.mp h
  rfl

instance : Adds S φ (foresee p) := .of_row_eq fun {c a d} h => by
  unfold foresee at h
  split at h <;> cases h
  rfl

instance [adds : Adds S φ p] : Adds S φ (attempt p) where
  row {c a d} inS h := by
    unfold attempt at h
    split at h
    · rename_i after read
      cases h
      exact adds.row (c := { c with leftover := none }) (d := after) inS read
    · cases h
      exact ⟨[], rfl, nofun⟩

instance (k : Kind) [Admits φ k] : Adds S φ (node k p) := .node Admits.node

instance (d : Delimiter) (missing : String) [AdmitsGroups φ] : Adds S φ (inGroup d missing p) :=
  .of_row_cons fun run => by
    obtain ⟨body, o, cl, after, inner, -, -, rfl⟩ := inGroup_eq_ok.mp run
    exact ⟨_, rfl, AdmitsGroups.group _ _ _ _⟩

instance (k : Kind) (ps : List Phrase) [Admits φ k] : Adds S φ (emit (.node k ps)) :=
  .emit (Admits.node _)

instance [AdmitsGroups φ] : Adds S φ (parens p) := by dsimp only [parens]; infer_instance

instance [AdmitsGroups φ] : Adds S φ (brackets p) := by dsimp only [brackets]; infer_instance

instance [AdmitsGroups φ] : Adds S φ (braces p) := by dsimp only [braces]; infer_instance

section
variable [Ends S] [AdmitsTokens φ]

instance : Adds S φ take where
  row {c a d} _ h := by
    rcases c with ⟨_ | ⟨t, ts⟩, inside, leftover, row⟩ <;> cases h
    · exact ⟨[], rfl, nofun⟩
    · exact ⟨[.token t], rfl, by simpa using AdmitsTokens.token t⟩

instance (w : String) : Adds S φ (word w) := by dsimp only [word]; infer_instance

instance (w : String) : Adds S φ (word? w) := by dsimp only [word?]; infer_instance

instance (n : Nat) : Adds S φ (takeMarks n) := by
  induction n with
  | zero => dsimp only [takeMarks]; infer_instance
  | succ n ih =>
    unfold takeMarks
    refine .bind inferInstance fun c => ?_
    split
    · refine .bind inferInstance fun _ => .bind (.emit (AdmitsTokens.token _)) fun _ => ih
    · infer_instance

instance (m : String) : Adds S φ (mark m) := by dsimp only [mark]; infer_instance

instance (m : String) : Adds S φ (mark? m) := by dsimp only [mark?]; infer_instance

instance : Adds S φ name := by
  unfold name
  refine .bind inferInstance fun c => ?_
  split <;> infer_instance

instance : Adds S φ anyName := by dsimp only [anyName]; infer_instance

instance : Adds S φ lifetime? := by dsimp only [lifetime?]; infer_instance

end

theorem forall_of_collect {ψ : Phrase → Prop} [adds : Adds S ψ p] {c d : Cursor} {a : α}
    {ps : List Phrase} (inS : S c.rest) (h : collect p c = .ok ((a, ps), d)) : ∀ q ∈ ps, ψ q := by
  obtain ⟨e, run, parts, rfl⟩ := collect_eq_ok.mp h
  obtain ⟨qs, row, all⟩ := adds.row (c := { c with row := [] }) inS run
  have same : ps = qs.reverse := by
    rw [show ps = e.row.reverse from parts, row, List.append_nil]
  intro q hq
  rw [same, List.mem_reverse] at hq
  exact all q hq

section
variable [Ends S]

instance (q : Parser Bool) [Advances Remains q] [Adds S φ q] (n : Nat) :
    Adds S φ (repeatUpTo q n) := by
  induction n with
  | zero => dsimp only [repeatUpTo]; infer_instance
  | succ n ih => dsimp only [repeatUpTo]; infer_instance

theorem Adds.repeatWhile {q : Parser Bool} [Advances Remains q] (each : Adds S φ q) :
    Adds S φ (Parser.repeatWhile q) := by
  dsimp only [Parser.repeatWhile]; infer_instance

instance (q : Parser Bool) [Advances Remains q] [each : Adds S φ q] : Adds S φ (repeatWhile q) :=
  each.repeatWhile

instance (q : Parser Unit) [Advances Remains q] [Adds S φ q] : Adds S φ (untilEnd q) := by
  dsimp only [untilEnd]; infer_instance

/-- What is read first goes elsewhere, with a property that matters afterwards. -/
theorem Adds.collect_bind {ψ : Phrase → Prop} [Advances Remains p] [Adds S ψ p]
    {f : α × List Phrase → Parser β}
    (second : ∀ a ps, (∀ q ∈ ps, ψ q) → Adds S φ (f (a, ps))) : Adds S φ (collect p >>= f) where
  row {c b d} inS h := by
    obtain ⟨⟨a, ps⟩, e, collected, h'⟩ := run_bind_eq_ok.mp h
    have left : Remains c.rest e.rest := Advances.rest collected
    obtain ⟨qs, row, hqs⟩ :=
      (second a ps (forall_of_collect inS collected)).row (Ends.suffix inS left) h'
    obtain ⟨e, -, -, rfl⟩ := collect_eq_ok.mp collected
    exact ⟨qs, row, hqs⟩

theorem Adds.forIn_emit {ps : List Phrase} (h : ∀ q ∈ ps, φ q) :
    Adds S φ (forIn ps PUnit.unit fun q _ => do
      Parser.emit q
      pure (ForInStep.yield PUnit.unit) : Parser PUnit) := by
  induction ps with
  | nil => exact inferInstanceAs (Adds S φ (pure _))
  | cons q qs ih =>
    rw [List.forIn_cons]
    have rest := ih fun r hr => h r (List.mem_cons_of_mem q hr)
    refine .bind (.bind (.emit (h q List.mem_cons_self)) fun _ => inferInstance) fun step => ?_
    cases step with
    | done => infer_instance
    | yield => exact rest

end

/-- Whether a parser that succeeds adds one phrase, which has a property. -/
class Makes (S : List Token → Prop) (φ : Phrase → Prop) {α : Type} (p : Parser α) : Prop where
  row : ∀ {c a d}, S c.rest → p c = .ok (a, d) → ∃ q, d.row = q :: c.row ∧ φ q

/-- Whether a parser that succeeds changes the last phrase at most, and keeps its property. -/
class Remakes (φ : Phrase → Prop) {α : Type} (p : Parser α) : Prop where
  row : ∀ {c a d q row}, c.row = q :: row → φ q → p c = .ok (a, d) →
    ∃ q, d.row = q :: row ∧ φ q

/-- Whether a parser that succeeds leaves the row as it is. -/
class Silent {α : Type} (p : Parser α) : Prop where
  row : ∀ {c a d}, p c = .ok (a, d) → d.row = c.row

instance [adds : Adds (fun _ => True) (fun _ => False) p] : Silent p where
  row h := by
    obtain ⟨ps, row, none⟩ := adds.row trivial h
    rw [row, List.eq_nil_iff_forall_not_mem.mpr none, List.nil_append]

namespace Makes

theorem ite {q : Parser α} {t : Prop} [Decidable t] (first : Makes S φ p) (second : Makes S φ q) :
    Makes S φ (if t then p else q) := by
  split <;> assumption

theorem bind [Ends S] [Advances Remains p] [silent : Silent p] {f : α → Parser β}
    (second : ∀ a, Makes S φ (f a)) : Makes S φ (p >>= f) where
  row {c b d} inS h := by
    obtain ⟨a, e, h, h'⟩ := run_bind_eq_ok.mp h
    have left : e.rest <:+ c.rest := Advances.rest (R := Remains) h
    obtain ⟨q, row', hq⟩ := (second a).row (Ends.suffix inS left) h'
    exact ⟨q, by rw [row', silent.row h], hq⟩

theorem bind_remakes {f : α → Parser β} (first : Makes S φ p) (second : ∀ a, Remakes φ (f a)) :
    Makes S φ (p >>= f) where
  row inS h := by
    obtain ⟨a, e, h, h'⟩ := run_bind_eq_ok.mp h
    obtain ⟨q, row, hq⟩ := first.row inS h
    exact (second a).row row hq h'

/-- What is read first goes elsewhere, and what is known about it matters afterwards. -/
theorem collect_bind [Ends S] [Advances Remains p] {P : α → List Phrase → Prop}
    (first : ∀ {c d a ps}, collect p c = .ok ((a, ps), d) → P a ps) {f : α × List Phrase → Parser β}
    (second : ∀ a ps, P a ps → Makes S φ (f (a, ps))) : Makes S φ (collect p >>= f) where
  row {c b d} inS h := by
    obtain ⟨⟨a, ps⟩, e, collected, h'⟩ := run_bind_eq_ok.mp h
    have left : Remains c.rest e.rest := Advances.rest collected
    obtain ⟨q, row, hq⟩ := (second a ps (first collected)).row (Ends.suffix inS left) h'
    obtain ⟨e, -, -, rfl⟩ := collect_eq_ok.mp collected
    exact ⟨q, row, hq⟩

theorem emit {q : Phrase} (h : φ q) : Makes S φ (Parser.emit q) where
  row _ run := by cases run; exact ⟨q, rfl, h⟩

theorem adds (makes : Makes S φ p) : Adds S φ p where
  row inS h := by
    obtain ⟨q, row, hq⟩ := makes.row inS h
    exact ⟨[q], row, by simpa using hq⟩

end Makes

instance [Ends S] [Advances Remains p] [Silent p] (f : α → Parser β)
    [second : ∀ a, Makes S φ (f a)] : Makes S φ (p >>= f) :=
  .bind second

instance (q : Parser α) (t : Prop) [Decidable t] [first : Makes S φ p] [second : Makes S φ q] :
    Makes S φ (if t then p else q) :=
  first.ite second

instance (things : List String) : Makes S φ (expected things : Parser α) := ⟨nofun⟩

instance (fault : Fault) : Makes S φ (fail fault : Parser α) := ⟨nofun⟩

instance (e : ParseError) : Makes S φ (throw e : Parser α) := ⟨nofun⟩

instance (k : Kind) [Admits φ k] : Makes S φ (node k p) where
  row _ run := by
    obtain ⟨e, -, rfl⟩ := node_eq_ok.mp run
    exact ⟨_, rfl, Admits.node _⟩

instance (k : Kind) (ps : List Phrase) [Admits φ k] : Makes S φ (emit (.node k ps)) :=
  .emit (Admits.node _)

instance (k : Kind) (before : List Token) [Admits φ k] : Makes S φ (emitWritten k before) where
  row _ run := by cases run; exact ⟨_, rfl, Admits.node _⟩

instance (k : Kind) [Admits φ k] : Remakes φ (extend k p) where
  row {c a d q row} last _ h := by
    rcases c with ⟨rest, inside, leftover, row'⟩
    cases last
    obtain ⟨_, _, got, h⟩ := run_bind_eq_ok.mp h
    cases got
    obtain ⟨_, _, moved, h⟩ := run_bind_eq_ok.mp h
    cases moved
    obtain ⟨e, -, rfl⟩ := node_eq_ok.mp h
    exact ⟨_, rfl, Admits.node _⟩

instance [silent : Silent p] : Remakes φ p where
  row last hq h := ⟨_, (silent.row h).trans last, hq⟩

instance (f : α → Parser β) [first : Remakes φ p] [second : ∀ a, Remakes φ (f a)] :
    Remakes φ (p >>= f) where
  row last hq h := by
    obtain ⟨a, e, h, h'⟩ := run_bind_eq_ok.mp h
    obtain ⟨q, row, hq⟩ := first.row last hq h
    exact (second a).row row hq h'

instance (q : Parser α) (t : Prop) [Decidable t] [first : Remakes φ p] [second : Remakes φ q] :
    Remakes φ (if t then p else q) := by
  split <;> assumption

instance (k : Kind) [Ends S] [Advances Remains p] [Admits φ k] : Makes S φ (verbatim k p) := by
  refine .bind fun _ => .bind fun _ => ?_
  exact .bind_remakes inferInstance fun _ => inferInstance

instance (t : Prop) [Decidable t] (k l : Kind) [first : Admits φ k] [second : Admits φ l] :
    Admits φ (if t then k else l) := by
  split <;> assumption

end Parser
end FormulaBinding
