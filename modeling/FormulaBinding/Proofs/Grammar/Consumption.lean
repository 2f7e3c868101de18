import FormulaBinding.Proofs.Grammar.Remainder

/-!
# Which parsers take a token

Some parsers have taken a token whenever they succeed, others whenever they answer yes. Loops whose
body is of the second sort stop by themselves.
-/

namespace FormulaBinding.Parser

variable {α β : Type} {p : Parser α} {f : α → Parser β} {c d : Cursor} {a : α} {k : Kind}

/-- Whether a parser that succeeds has taken a token. -/
class Consumes (p : Parser α) : Prop where
  shorter : ∀ {c a d}, p c = .ok (a, d) → d.rest.length < c.rest.length

/-- Whether a parser that answers yes has taken a token. -/
class Tells (p : Parser Bool) : Prop where
  shorter : ∀ {c d}, p c = .ok (true, d) → d.rest.length < c.rest.length

theorem length_le_of_ok [Advances Remains p] (h : p c = .ok (a, d)) :
    d.rest.length ≤ c.rest.length :=
  (Advances.rest (R := Remains) h).length_le

theorem Consumes.of_error (h : ∀ {c a d}, p c = .ok (a, d) → False) : Consumes p where
  shorter run := (h run).elim

instance (fault : Fault) : Consumes (fail fault : Parser α) := .of_error nofun

instance (things : List String) : Consumes (expected things : Parser α) := .of_error nofun

instance [Consumes p] [∀ a, Advances Remains (f a)] : Consumes (p >>= f) where
  shorter h := by
    obtain ⟨a, e, h, h'⟩ := run_bind_eq_ok.mp h
    exact Nat.lt_of_le_of_lt (length_le_of_ok h') (Consumes.shorter h)

instance [Advances Remains p] [∀ a, Consumes (f a)] : Consumes (p >>= f) where
  shorter h := by
    obtain ⟨a, e, h, h'⟩ := run_bind_eq_ok.mp h
    exact Nat.lt_of_lt_of_le (Consumes.shorter h') (length_le_of_ok h)

instance (q : Parser α) (t : Prop) [Decidable t] [Consumes p] [Consumes q] :
    Consumes (if t then p else q) := by
  split <;> assumption

instance [Consumes p] : Consumes (collect p) where
  shorter {c x d} h := by
    obtain ⟨e, read, -, rfl⟩ := collect_eq_ok.mp h
    have taken := Consumes.shorter read
    exact taken

instance [Consumes p] : Consumes (node k p) := by dsimp only [node]; infer_instance

instance (d : Delimiter) (missing : String) : Consumes (inGroup d missing p) where
  shorter h := by
    obtain ⟨body, o, cl, after, content, rest, -, rfl⟩ := inGroup_eq_ok.mp h
    rw [rest]
    exact Nat.lt_succ_self _

instance : Consumes (parens p) := by dsimp only [parens]; infer_instance

instance : Consumes (brackets p) := by dsimp only [brackets]; infer_instance

instance : Consumes (braces p) := by dsimp only [braces]; infer_instance

instance (w : String) : Consumes (word w) where
  shorter h := by
    obtain ⟨e, ts, rest, rfl⟩ := word_eq_ok.mp h
    rw [rest]
    exact Nat.lt_succ_self _

instance : Consumes name where
  shorter h := by
    obtain ⟨w, e, ts, rest, -, rfl⟩ := name_eq_ok.mp h
    rw [rest]
    exact Nat.lt_succ_self _

instance : Consumes anyName where
  shorter h := by
    obtain ⟨w, e, ts, rest, rfl⟩ := anyName_eq_ok.mp h
    rw [rest]
    exact Nat.lt_succ_self _

theorem length_lt_of_take (h : take c = .ok ((), d)) (some : c.rest ≠ []) :
    d.rest.length < c.rest.length := by
  obtain ⟨t, ts, rest⟩ := List.exists_cons_of_ne_nil some
  rw [take_cons rest] at h
  cases h
  rw [rest]
  exact Nat.lt_succ_self _

instance : Consumes lifetime where
  shorter {c u d} h := by
    obtain ⟨seen, _, peeked, h⟩ := run_bind_eq_ok.mp h
    cases peeked
    split at h
    · rename_i seen
      refine length_lt_of_take h fun nothing => ?_
      rw [nothing] at seen
      cases seen
    · cases h

/-- Whether an operator has a character, and a closing bracket at most as the last one. -/
class Operator (m : String) : Prop where
  some : m.toList ≠ [] := by decide
  free : '>' ∉ m.toList.dropLast := by decide

/-- Whether an operator is no comma either. -/
class InnerOperator (m : String) : Prop extends Operator m where
  comma : ',' ∉ m.toList := by decide

instance : InnerOperator "::" := {}
instance : InnerOperator "<" := {}
instance : InnerOperator ">" := {}
instance : Operator "," := {}
instance : InnerOperator "=" := {}
instance : InnerOperator "==" := {}
instance : InnerOperator "=>" := {}
instance : InnerOperator "!=" := {}
instance : InnerOperator "<=" := {}
instance : InnerOperator "<<=" := {}
instance : InnerOperator ":" := {}
instance : InnerOperator "+" := {}
instance : InnerOperator "->" := {}
instance : InnerOperator "?" := {}
instance : InnerOperator "#" := {}
instance : InnerOperator "*" := {}
instance : InnerOperator "&" := {}
instance : InnerOperator "!" := {}
instance : InnerOperator "|" := {}
instance : InnerOperator "@" := {}
instance : InnerOperator ";" := {}
instance : InnerOperator "." := {}
instance : InnerOperator ".." := {}
instance : InnerOperator "..." := {}
instance : InnerOperator "..=" := {}

theorem length_lt_of_takeMarks {m : String} (some : m.toList ≠ [])
    (seen : Ahead.mark m c.rest = true) (h : takeMarks m.length c = .ok ((), d)) :
    d.rest.length < c.rest.length := by
  obtain ⟨x, cs, chars⟩ := List.exists_cons_of_ne_nil some
  rw [Ahead.mark, chars] at seen
  obtain ⟨joined, e, ts, rest, -⟩ := markChars_cons seen
  rw [← String.length_toList, chars, List.length_cons, takeMarks_succ _ rest] at h
  rw [rest]
  exact Nat.lt_succ_of_le (length_le_of_ok h)

theorem consumes_mark {m : String} (some : m.toList ≠ []) : Consumes (mark m) where
  shorter {c u d} h := by
    obtain ⟨seen, _, peeked, h⟩ := run_bind_eq_ok.mp h
    cases peeked
    split at h
    · rename_i seen
      exact length_lt_of_takeMarks some seen h
    · cases h

instance (m : String) [operator : Operator m] : Consumes (mark m) := consumes_mark operator.some

section
variable {q : Parser Bool} {g : Bool → Parser Bool}

instance : Tells (pure false) := ⟨nofun⟩

instance (f : α → Parser Bool) [Consumes p] [∀ a, Advances Remains (f a)] : Tells (p >>= f) where
  shorter := Consumes.shorter

instance (f : α → Parser Bool) [Advances Remains p] [∀ a, Tells (f a)] : Tells (p >>= f) where
  shorter h := by
    obtain ⟨a, e, h, h'⟩ := run_bind_eq_ok.mp h
    exact Nat.lt_of_lt_of_le (Tells.shorter h') (length_le_of_ok h)

/-- What comes behind an answer may rely on it. -/
instance (p r : Parser Bool) [Tells q] [Advances Remains q] [Tells p] [Advances Remains r] :
    Tells (q >>= fun answer => if (!answer) = true then p else r) where
  shorter h := by
    obtain ⟨answer, e, h, h'⟩ := run_bind_eq_ok.mp h
    cases answer with
    | true => exact Nat.lt_of_le_of_lt (length_le_of_ok (p := r) h') (Tells.shorter h)
    | false => exact Nat.lt_of_lt_of_le (Tells.shorter (p := p) h') (length_le_of_ok h)

instance (p : Parser Bool) (t : Prop) [Decidable t] [Tells p] [Tells q] :
    Tells (if t then p else q) := by
  split <;> assumption

instance (m : String) [some : Operator m] : Tells (mark? m) where
  shorter {c d} h := by
    obtain ⟨seen, _, peeked, h⟩ := run_bind_eq_ok.mp h
    cases peeked
    split at h
    · rename_i seen
      obtain ⟨_, e, taken, h⟩ := run_bind_eq_ok.mp h
      cases h
      exact length_lt_of_takeMarks some.some seen taken
    · cases h

end

end FormulaBinding.Parser
