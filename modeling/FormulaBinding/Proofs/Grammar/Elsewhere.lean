import FormulaBinding.Proofs.Grammar.Depth
import FormulaBinding.Proofs.Grammar.Inputs

/-!
# Types elsewhere

A type that is read by itself is read in the same way as part of a list, inside of any group and
over any row: the rules of types look neither at what comes behind a type nor at what has been read
before it.
-/

namespace FormulaBinding

namespace Parser

variable {α β : Type} {p : Parser α} {k : Kind}

/-- Whether a parser does the same over other phrases in the row. -/
class Framed (p : Parser α) : Prop where
  run : ∀ {c a d} (row : List Phrase), p c = .ok (a, d) →
    p { c with row := c.row ++ row } = .ok (a, { d with row := d.row ++ row })

namespace Framed

theorem of_error (h : ∀ {c a d}, p c = .ok (a, d) → False) : Framed p where
  run _ run := (h run).elim

theorem bind {f : α → Parser β} (first : Framed p) (second : ∀ a, Framed (f a)) :
    Framed (p >>= f) where
  run row run := by
    obtain ⟨a, e, run, behind⟩ := run_bind_eq_ok.mp run
    exact run_bind_eq_ok.mpr ⟨a, _, first.run row run, (second a).run row behind⟩

theorem ite {q : Parser α} {t : Prop} [Decidable t] (first : Framed p) (second : Framed q) :
    Framed (if t then p else q) := by
  split <;> assumption

end Framed

instance (x : α) : Framed (pure x : Parser α) := ⟨fun _ run => by cases run; rfl⟩

instance (f : α → Parser β) [first : Framed p] [second : ∀ a, Framed (f a)] : Framed (p >>= f) :=
  first.bind second

instance (q : Parser α) (t : Prop) [Decidable t] [first : Framed p] [second : Framed q] :
    Framed (if t then p else q) :=
  first.ite second

instance (test : List Token → Bool) : Framed (peek test) := ⟨fun _ run => by cases run; rfl⟩

instance (test : List Token → Bool) : Framed (peek2 test) := ⟨fun _ run => by cases run; rfl⟩

instance : Framed ahead := ⟨fun _ run => by cases run; rfl⟩

instance (things : List String) : Framed (expected things : Parser α) := .of_error nofun

instance (q : Phrase) : Framed (emit q) := ⟨fun _ run => by cases run; rfl⟩

instance : Framed (collect p) where
  run row run := by
    obtain ⟨e, inner, parts, rfl⟩ := collect_eq_ok.mp run
    exact collect_eq_ok.mpr ⟨e, inner, parts, rfl⟩

instance : Framed (node k p) where
  run row run := by
    obtain ⟨e, inner, rfl⟩ := node_eq_ok.mp run
    exact node_eq_ok.mpr ⟨e, inner, rfl⟩

instance : Framed (verbatim k p) where
  run row run := by
    obtain ⟨e, inner, rfl⟩ := verbatim_eq_ok.mp run
    exact verbatim_eq_ok.mpr ⟨e, inner, rfl⟩

end Parser

namespace Grammar
open FormulaBinding.Parser FormulaBinding.Token

variable {read : Reader}

instance (plus : Bool) : Framed (parenType read plus) := by
  dsimp only [parenType]
  repeat' first
    | infer_instance
    | refine .bind inferInstance fun _ => ?_
    | refine .ite ?_ ?_
    | split

/-- What is made of the last phrase does not depend on the others. -/
theorem extendMacro_run {c d : Cursor} {u : Unit} {parts row : List Phrase} {l : Kind}
    (last : c.row = .node l parts :: row) (h : pathTypeOrBounds.extendMacro c = .ok (u, d))
    (row' : List Phrase) : pathTypeOrBounds.extendMacro { c with row := c.row ++ row' } =
      .ok (u, { d with row := d.row ++ row' }) := by
  rcases c with ⟨rest, inside, leftover, _⟩
  cases last
  obtain ⟨_, _, got, h⟩ := run_bind_eq_ok.mp h
  cases got
  obtain ⟨_, _, moved, h⟩ := run_bind_eq_ok.mp h
  cases moved
  refine run_bind_eq_ok.mpr ⟨_, _, rfl, run_bind_eq_ok.mpr ⟨_, _, rfl, ?_⟩⟩
  exact Framed.run row' h

theorem extendBounds_run {p : Parser Unit} {c d : Cursor} {u : Unit} {parts row : List Phrase}
    (last : c.row = .node .pathType parts :: row) (h : extendBounds p c = .ok (u, d))
    (row' : List Phrase) : extendBounds p { c with row := c.row ++ row' } =
      .ok (u, { d with row := d.row ++ row' }) := by
  rcases c with ⟨rest, inside, leftover, _⟩
  cases last
  obtain ⟨_, _, got, h⟩ := run_bind_eq_ok.mp h
  cases got
  obtain ⟨_, _, moved, h⟩ := run_bind_eq_ok.mp h
  cases moved
  refine run_bind_eq_ok.mpr ⟨_, _, rfl, run_bind_eq_ok.mpr ⟨_, _, rfl, ?_⟩⟩
  exact Framed.run row' h

instance (plus : Bool) (lifetimes : List Phrase) : Framed (pathTypeOrBounds read plus lifetimes) where
  run {c a d} row' h := by
    obtain ⟨_, e, made, h⟩ := run_bind_eq_ok.mp h
    refine run_bind_eq_ok.mpr ⟨_, _, Framed.run row' made, ?_⟩
    obtain ⟨e, -, rfl⟩ := node_eq_ok.mp made
    obtain ⟨_, _, got, h⟩ := run_bind_eq_ok.mp h
    cases got
    refine run_bind_eq_ok.mpr ⟨_, _, rfl, ?_⟩
    generalize e.row.reverse = whole at h ⊢
    rcases whole with _ | ⟨p, _ | ⟨p', ps⟩⟩
    · cases h
      rfl
    · dsimp only [List.cons_append, List.head?_cons] at h ⊢
      split at h
      · rename_i qualified
        rw [if_pos qualified]
        cases h
        rfl
      rename_i other
      rw [if_neg other]
      obtain ⟨_, _, peeked, h⟩ := run_bind_eq_ok.mp h
      cases peeked
      obtain ⟨_, _, peeked, h⟩ := run_bind_eq_ok.mp h
      cases peeked
      refine run_bind_eq_ok.mpr ⟨_, _, rfl, run_bind_eq_ok.mpr ⟨_, _, rfl, ?_⟩⟩
      split at h
      · rename_i call
        obtain ⟨_, _, got, h⟩ := run_bind_eq_ok.mp h
        cases got
        obtain ⟨_, _, moved, h⟩ := run_bind_eq_ok.mp h
        cases moved
        rw [if_pos (by exact call)]
        exact run_bind_eq_ok.mpr ⟨_, _, rfl, run_bind_eq_ok.mpr ⟨_, _, rfl,
          extendMacro_run rfl h row'⟩⟩
      rename_i noCall
      rw [if_neg (by exact noCall)]
      obtain ⟨_, _, peeked, h⟩ := run_bind_eq_ok.mp h
      cases peeked
      refine run_bind_eq_ok.mpr ⟨_, _, rfl, ?_⟩
      split at h
      · rename_i further
        rw [if_pos (by exact further)]
        obtain ⟨_, _, moved, h⟩ := run_bind_eq_ok.mp h
        cases moved
        exact run_bind_eq_ok.mpr ⟨_, _, rfl, extendBounds_run rfl h row'⟩
      · rename_i alone
        rw [if_neg (by exact alone)]
        cases h
        rfl
    · cases h
      rfl

instance (k : Kind) : Framed (builtin k) := by dsimp only [builtin]; infer_instance

instance (plus : Bool) : Framed (type read plus) := by
  dsimp only [type]
  repeat' first
    | infer_instance
    | refine .bind inferInstance fun _ => ?_
    | refine .ite ?_ ?_

/-- Whether tokens are read as a type by themselves. -/
def IsType (ts : List Token) : Prop :=
  (readTokens (fun read => read (.type true)) ts).isOk = true

instance : DecidablePred IsType := fun _ => inferInstanceAs (Decidable (_ = true))

theorem stops_of_endsInput {us : List Token} (ends : EndsInput us) : Stops [] us := by
  cases ends with
  | nil => infer_instance
  | comma e ts => exact stops_comma _ _ _

theorem exists_type_of_runAll {ts : List Token} {row : List Phrase} {n : ℕ}
    (h : runAll (reader n (.type true)) ts = .ok ((), row)) : ∃ q x, row = [q] ∧
      reader n (.type true) { rest := ts } = .ok ((), { rest := [], inside := x, row := [q] }) := by
  obtain ⟨d, run, atEnd, clear, rfl⟩ := runAll_eq_ok.mp h
  obtain ⟨q, row, -⟩ := ((inferInstance : SettledReader (reader n)).type true).row trivial run
  rcases d with ⟨rest, inside, leftover, row'⟩
  cases atEnd
  cases clear
  cases row
  exact ⟨q, inside, rfl, run⟩

/-- A type that is read by itself is the same type in front of a comma and at the end of any list,
whatever has been read before it. -/
theorem type_run_of_runAll {ts us : List Token} {q : Phrase} {c : Cursor} {a b : ℕ}
    (alone : runAll (reader a (.type true)) ts = .ok ((), [q])) (ends : EndsInput us)
    (deep : 2 * (sizeList ts + 1) ≤ a) (deep' : 2 * (sizeList ts + 1) ≤ b)
    (rest : c.rest = ts ++ us) (clear : c.leftover = none) :
    reader b (.type true) c = .ok ((), { c with rest := us, row := q :: c.row }) := by
  obtain ⟨q', x, same, run⟩ := exists_type_of_runAll alone
  cases same
  have := stops_of_endsInput ends
  have agree : AgreeAhead [] us (fun _ => c.inside) (sizeList ts + 1) (reader a) (reader b) :=
    agreeAhead_reader deep deep'
  have again := @(agree.type true).run ts [] { rest := [] }
    { rest := [], inside := x, row := [q] } () (Nat.lt_succ_self _) (by simpa using run)
  rcases c with ⟨_, inside, _, row⟩
  cases rest
  cases clear
  cases b with
  | zero => omega
  | succ b => exact Framed.run (p := type (reader b) true) row again

/-- Whether a phrase is what tokens are read as, as a type by themselves. -/
def IsTypeOf (ts : List Token) (q : Phrase) : Prop :=
  readTokens (fun read => read (.type true)) ts = .ok ((), [q])

theorem IsType.exists_isTypeOf {ts : List Token} (h : IsType ts) : ∃ q, IsTypeOf ts q := by
  obtain ⟨⟨_, row⟩, read⟩ := isOk_iff.mp h
  obtain ⟨q, -, rfl, -⟩ := exists_type_of_runAll read
  exact ⟨q, read⟩

theorem IsTypeOf.run {ts us : List Token} {q : Phrase} {c : Cursor} {n : ℕ} (h : IsTypeOf ts q)
    (enough : depth ts ≤ n) (ends : EndsInput us) (rest : c.rest = ts ++ us)
    (clear : c.leftover = none) :
    reader n (.type true) c = .ok ((), { c with rest := us, row := q :: c.row }) := by
  have deep : 2 * (sizeList ts + 1) ≤ depth ts := by rw [depth]; omega
  exact type_run_of_runAll h ends deep (deep.trans enough) rest clear

end Grammar
end FormulaBinding
