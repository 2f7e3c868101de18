import FormulaBinding.Proofs.Grammar.Steps
import FormulaBinding.Proofs.Token.Angles

/-!
# What the rules of types take

The rules of types close every angle bracket that they open, and they take neither a comma nor a dot
outside of brackets. So where such a rule ends in front of a comma, the comma is the first one.
-/

namespace FormulaBinding

open Token (Leads AreCalm)

/-- Whether the tokens taken lead from `i` open brackets to `j`. -/
def Parser.Takes (i j : ℕ) (ts us : List Token) : Prop := ∃ taken, ts = taken ++ us ∧ Leads i j taken

namespace Parser

variable {α β : Type} {i j k : ℕ} {p : Parser α} {c d : Cursor}

instance : Progress (Takes i i) where
  refl _ := ⟨[], rfl, .nil⟩
  trans := by
    rintro _ _ vs ⟨first, rfl, h⟩ ⟨second, rfl, h'⟩
    exact ⟨first ++ second, (List.append_assoc _ _ _).symm, h.append h'⟩
  group d body o cl ts := ⟨[.group d body o cl], rfl, Token.leads_of_isQuiet rfl⟩

theorem Takes.trans {ts us vs : List Token} (first : Takes i j ts us) (second : Takes j k us vs) :
    Takes i k ts vs := by
  obtain ⟨taken, rfl, h⟩ := first
  obtain ⟨others, rfl, h'⟩ := second
  exact ⟨taken ++ others, (List.append_assoc _ _ _).symm, h.append h'⟩

theorem Takes.cons {t : Token} {ts : List Token} (h : Leads i j [t]) : Takes i j (t :: ts) ts :=
  ⟨[t], rfl, h⟩

theorem Advances.through {f : α → Parser β} (first : Advances (Takes i j) p)
    (second : ∀ a, Advances (Takes j k) (f a)) : Advances (Takes i k) (p >>= f) where
  rest h := by
    obtain ⟨a, e, h, h'⟩ := run_bind_eq_ok.mp h
    exact (first.rest h).trans ((second a).rest h')

instance (w : String) : Advances (Takes i i) (word w) where
  rest h := by
    obtain ⟨e, ts, rest, rfl⟩ := word_eq_ok.mp h
    rw [rest]
    exact .cons (Token.leads_of_isQuiet rfl)

instance (w : String) : Advances (Takes i i) (word? w) where
  rest h := by
    obtain ⟨-, e, ts, rest, rfl⟩ | ⟨-, -, rfl⟩ := word?_eq_ok.mp h
    · rw [rest]
      exact .cons (Token.leads_of_isQuiet rfl)
    · exact Progress.refl _

instance : Advances (Takes i i) anyName where
  rest h := by
    obtain ⟨w, e, ts, rest, rfl⟩ := anyName_eq_ok.mp h
    rw [rest]
    exact .cons (Token.leads_of_isQuiet rfl)

instance : Advances (Takes i i) name where
  rest h := by
    obtain ⟨w, e, ts, rest, -, rfl⟩ := name_eq_ok.mp h
    rw [rest]
    exact .cons (Token.leads_of_isQuiet rfl)

theorem takes_of_take (quiet : ∀ t ts, c.rest = t :: ts → t.isQuiet = true) {u : Unit}
    (h : take c = .ok (u, d)) : Takes i i c.rest d.rest := by
  cases rest : c.rest with
  | nil =>
    rcases c with ⟨_, inside, leftover, row⟩
    cases rest
    cases h
    exact Progress.refl _
  | cons t ts =>
    rw [take_cons rest] at h
    cases h
    exact .cons (Token.leads_of_isQuiet (quiet t ts rest))

/-- Whether what a test finds ahead is quiet. -/
class QuietTest (test : List Token → Bool) : Prop where
  quiet : ∀ t ts, test (t :: ts) = true → t.isQuiet = true

instance : QuietTest Ahead.lifetime where
  quiet t _ h := by
    cases t with
    | lifetime text e => rfl
    | _ => cases h

instance : QuietTest Ahead.stringLiteral where
  quiet t _ h := by
    cases t with
    | literal text e => rfl
    | _ => cases h

theorem takes_of_peek {test : List Token → Bool} [quiet : QuietTest test]
    (seen : test c.rest = true) {u : Unit} (h : take c = .ok (u, d)) : Takes i i c.rest d.rest :=
  takes_of_take (fun t ts rest => quiet.quiet t ts (rest ▸ seen)) h

theorem advances_take (test : List Token → Bool) [QuietTest test] (things : List String) :
    Advances (Takes i i) (do if ← peek test then take else expected things) where
  rest h := by
    obtain ⟨_, _, peeked, h⟩ := run_bind_eq_ok.mp h
    cases peeked
    split at h
    · rename_i seen
      exact takes_of_peek seen h
    · cases h

instance : Advances (Takes i i) lifetime := advances_take _ _

instance : Advances (Takes i i) stringLiteral := advances_take _ _

instance : Advances (Takes i i) lifetime? where
  rest {c b d} h := by
    obtain ⟨_, _, peeked, h⟩ := run_bind_eq_ok.mp h
    cases peeked
    split at h
    · rename_i seen
      obtain ⟨u, e, taken, h⟩ := run_bind_eq_ok.mp h
      cases h
      exact takes_of_peek seen taken
    · cases h
      exact Progress.refl _

instance : Advances (Takes i i) anyGroup where
  rest {c x d} h := by
    obtain ⟨_, _, got, h⟩ := run_bind_eq_ok.mp h
    cases got
    generalize rest : c.rest = ts at h ⊢
    split at h
    · rename_i x' body o cl after
      obtain ⟨_, _, taken, h⟩ := run_bind_eq_ok.mp h
      rw [take_cons rest] at taken
      cases taken
      cases h
      exact Progress.group _ _ _ _ _
    · cases h

theorem isQuiet_of_literal {t : Token} {us : List Token} (h : Ahead.literal (t :: us) = true)
    (unsigned : ∀ joined e text e' ts,
      t :: us ≠ .mark '-' joined e :: .literal text e' :: ts) : t.isQuiet = true := by
  unfold Ahead.literal at h
  split at h
  · rename_i here
    cases here
    rfl
  · rename_i here
    cases here
    rfl
  · rename_i here
    exact absurd here (unsigned _ _ _ _ _)
  · cases h

/-- The sign of a number is taken with its literal. -/
instance : Advances (Takes i i) literal where
  rest {c u d} h := by
    obtain ⟨_, _, got, h⟩ := run_bind_eq_ok.mp h
    cases got
    generalize rest : c.rest = ts at h ⊢
    split at h
    · rename_i joined e text e' ts
      obtain ⟨_, _, peeked, h⟩ := run_bind_eq_ok.mp h
      cases peeked
      split at h
      · obtain ⟨_, _, skipped, h⟩ := run_bind_eq_ok.mp h
        cases skipped
        obtain ⟨_, _, emitted, h⟩ := run_bind_eq_ok.mp h
        cases emitted
        have next : c.rest.drop 1 = .literal text e' :: ts := by rw [rest]; rfl
        have taken := (take_cons (c := { c with
          rest := c.rest.drop 1, row := .token (.mark '-' false e) :: c.row }) next).symm.trans h
        cases taken
        exact ⟨[.mark '-' joined e, .literal text e'], rfl, .negative joined text⟩
      · cases h
    · rename_i other
      obtain ⟨_, _, peeked, h⟩ := run_bind_eq_ok.mp h
      cases peeked
      split at h
      · rename_i seen
        rw [← rest]
        refine takes_of_take (fun t us same => ?_) h
        exact isQuiet_of_literal (by rwa [same] at seen) fun joined e text e' ts here =>
          other joined e text e' ts (rest.symm.trans (same.trans here))
      · cases h

/-- The characters that matter to lists and brackets. -/
def bracketChars : List Char := ['<', '>', ',', '.', '-']

/-- Whether an operator has no character that matters to lists and brackets. -/
class QuietMark (m : String) : Prop where
  quiet : ∀ c ∈ m.toList, c ∉ bracketChars

instance : QuietMark "#" := ⟨by decide⟩
instance : QuietMark "!" := ⟨by decide⟩
instance : QuietMark "=" := ⟨by decide⟩
instance : QuietMark ":" := ⟨by decide⟩
instance : QuietMark "::" := ⟨by decide⟩
instance : QuietMark "+" := ⟨by decide⟩
instance : QuietMark "?" := ⟨by decide⟩
instance : QuietMark "*" := ⟨by decide⟩
instance : QuietMark "&" := ⟨by decide⟩

theorem isQuiet_mark {x : Char} (h : x ∉ bracketChars) (joined : Bool) (e : Extent) :
    (Token.mark x joined e).isQuiet = true := by
  simp only [bracketChars, List.mem_cons, List.not_mem_nil, not_or, or_false] at h
  simp [Token.isQuiet, h]

theorem takes_of_takeMarks {cs : List Char} (quiet : ∀ x ∈ cs, x ∉ bracketChars)
    (seen : Ahead.markChars cs c.rest = true) {u : Unit} (h : takeMarks cs.length c = .ok (u, d)) :
    Takes i i c.rest d.rest := by
  induction cs generalizing c with
  | nil =>
    cases h
    exact Progress.refl _
  | cons x cs ih =>
    obtain ⟨joined, e, ts, rest, others⟩ := markChars_cons seen
    rw [List.length_cons, takeMarks_succ _ rest] at h
    have more : Takes i i ts d.rest := ih (fun y hy => quiet y (List.mem_cons_of_mem x hy)) others h
    rw [rest]
    have one : Leads i i [.mark x joined e] :=
      Token.leads_of_isQuiet (isQuiet_mark (quiet x List.mem_cons_self) _ _)
    exact (Takes.cons one).trans more

instance (m : String) [quiet : QuietMark m] : Advances (Takes i i) (mark m) where
  rest {c u d} h := by
    obtain ⟨_, _, peeked, h⟩ := run_bind_eq_ok.mp h
    cases peeked
    split at h
    · rename_i seen
      exact takes_of_takeMarks quiet.quiet seen h
    · cases h

instance (m : String) [quiet : QuietMark m] : Advances (Takes i i) (mark? m) where
  rest {c u d} h := by
    obtain ⟨_, _, peeked, h⟩ := run_bind_eq_ok.mp h
    cases peeked
    split at h
    · rename_i seen
      obtain ⟨_, _, taken, h⟩ := run_bind_eq_ok.mp h
      cases h
      exact takes_of_takeMarks quiet.quiet seen taken
    · cases h
      exact Progress.refl _

instance : Advances (Takes i (i + 1)) (mark "<") where
  rest h := by
    obtain ⟨joined, e, ts, rest, rfl⟩ := (mark_eq_ok '<' rfl).mp h
    rw [rest]
    exact .cons (.opens joined)

instance : Advances (Takes (i + 1) i) (mark ">") where
  rest h := by
    obtain ⟨joined, e, ts, rest, rfl⟩ := (mark_eq_ok '>' rfl).mp h
    rw [rest]
    exact .cons (.closes joined)

instance : Advances (Takes (i + 1) (i + 1)) (mark ",") where
  rest h := by
    obtain ⟨joined, e, ts, rest, rfl⟩ := (mark_eq_ok ',' rfl).mp h
    rw [rest]
    exact .cons (.comma joined)

/-- The bracket of an arrow is none. -/
instance : Advances (Takes i i) (mark "->") where
  rest {c u d} h := by
    obtain ⟨_, _, peeked, h⟩ := run_bind_eq_ok.mp h
    cases peeked
    split at h
    · rename_i seen
      have chars : Ahead.markChars ['-', '>'] c.rest = true := seen
      obtain ⟨joined, e, ts, rest, next⟩ := markChars_cons chars
      obtain ⟨joined', e', us, rfl, -⟩ := markChars_cons next
      have hyphen : joined = true := by
        rw [rest] at seen
        have both : Ahead.markChars ['-', '>'] (.mark '-' joined e :: _) = true := seen
        simp only [Ahead.markChars, Bool.and_eq_true] at both
        exact both.1.2
      have two : takeMarks 2 c = .ok (u, d) := h
      rw [takeMarks_succ _ rest, takeMarks_succ _ rfl] at two
      cases two
      exact ⟨[.mark '-' joined e, .mark '>' joined' e'], rest, by rw [hyphen]; exact .arrow joined'⟩
    · cases h

end Parser

/-- Whether the types and bounds that a reader reads leave no bracket open and no comma outside. -/
class CalmReader (read : Grammar.Reader) : Prop where
  type : ∀ {i : ℕ} (plus : Bool), Parser.Advances (Parser.Takes i i) (read (.type plus))
  bound : ∀ {i : ℕ} (captures conditional : Bool),
    Parser.Advances (Parser.Takes i i) (read (.bound captures conditional))

namespace Grammar
open FormulaBinding.Parser

-- A rule has more steps than the search for instances looks at by default.
set_option synthInstance.maxSize 100000

variable {read : Reader} [calm : CalmReader read] {i : ℕ}

instance (plus : Bool) : Advances (Takes i i) (read (.type plus)) := calm.type plus

instance (captures conditional : Bool) :
    Advances (Takes i i) (read (.bound captures conditional)) := calm.bound captures conditional

instance : Advances (Takes i i) (outerAttribute read) := by dsimp only [outerAttribute]; infer_instance

instance : Advances (Takes i i) (outerAttributes read) := by
  dsimp only [outerAttributes]; infer_instance

instance : Advances (Takes i i) (attributedBlock read) := by
  dsimp only [attributedBlock]; infer_instance

instance : Advances (Takes i i) (constValue read) := by dsimp only [constValue]; infer_instance

instance (k : Kind) (p : Parser Unit) [Advances (Takes i i) p] :
    Advances (Takes i i) (extendBinding k p) := by
  dsimp only [extendBinding]
  refine .bind inferInstance fun c => ?_
  split <;> infer_instance

instance (stop : List Token → Bool) (captures conditional : Bool) :
    Advances (Takes i i) (boundsUntil read stop captures conditional) := by
  dsimp only [boundsUntil]; infer_instance

instance : Advances (Takes i i) (genericArgument read) := by
  dsimp only [genericArgument]; infer_instance

instance (first : Phrase → Bool) (p : Parser Unit) [Advances (Takes i i) p] :
    Advances (Takes i i) (reorder first p) := by
  dsimp only [reorder]; infer_instance

/-- Behind an opening bracket a rule goes on until the bracket is closed. -/
theorem advances_opens {α : Type} {f : Unit → Parser α} (h : Advances (Takes (i + 1) i) (f ())) :
    Advances (Takes i i) (mark "<" >>= f) :=
  .through (j := i + 1) inferInstance fun _ => h

theorem advances_inside {α β : Type} {p : Parser α} [inside : Advances (Takes (i + 1) (i + 1)) p]
    {f : α → Parser β} (h : ∀ a, Advances (Takes (i + 1) i) (f a)) :
    Advances (Takes (i + 1) i) (p >>= f) :=
  .through inside h

theorem advances_closes {α : Type} {f : Unit → Parser α} [h : Advances (Takes i i) (f ())] :
    Advances (Takes (i + 1) i) (mark ">" >>= f) :=
  .through (j := i) inferInstance fun _ => h

instance : Advances (Takes i i) (genericArguments read) := by
  dsimp only [genericArguments]
  have angles : Advances (Takes i i) (do
      mark "<"
      reorder (Phrase.is .lifetimeArgument) do
        repeatWhile do
          if ← peek (Ahead.mark ">") then return false
          genericArgument read
          if ← peek (Ahead.mark ">") then return false
          mark ","
          return true
      mark ">") :=
    advances_opens (advances_inside fun _ => inferInstance)
  infer_instance

instance (plus : Bool) : Advances (Takes i i) (returnType read plus) := by
  dsimp only [returnType]; infer_instance

instance : Advances (Takes i i) (callArguments read) := by dsimp only [callArguments]; infer_instance

instance (inExpr : Bool) : Advances (Takes i i) (segment read inExpr) := by
  dsimp only [segment]; infer_instance

instance (inExpr : Bool) : Advances (Takes i i) (pathParts read inExpr) := by
  dsimp only [pathParts]; infer_instance

instance (inExpr : Bool) : Advances (Takes i i) (path read inExpr) := by
  dsimp only [path]; infer_instance

instance (inExpr : Bool) : Advances (Takes i i) (anyPath read inExpr) := by
  dsimp only [anyPath]
  have angles : Advances (Takes i i) (do
      mark "<"
      read (.type true)
      if ← word? "as" then path read false
      mark ">"
      mark "::"
      repeatWhile do
        segment read inExpr
        if !(← peek (Ahead.mark "::")) then return false
        mark "::"
        return true) := by
    apply advances_opens
    apply advances_inside
    intro _
    apply advances_inside
    rintro (_ | _)
    · exact advances_closes
    · exact advances_inside fun _ => advances_closes
  infer_instance

/-- A double colon is dropped only where it is ahead. -/
theorem advances_dropColons {α : Type} {f : Unit → Parser α} [∀ u, Advances (Takes i i) (f u)] :
    Advances (Takes i i) (do if ← peek (Ahead.mark "::") then dropMark "::" >>= f else f ()) where
  rest {c a d} h := by
    obtain ⟨_, _, peeked, h⟩ := run_bind_eq_ok.mp h
    cases peeked
    split at h
    · rename_i seen
      obtain ⟨_, _, dropped, h⟩ := run_bind_eq_ok.mp h
      cases dropped
      have chars : Ahead.markChars [':', ':'] c.rest = true := seen
      obtain ⟨joined, e, ts, rest, next⟩ := markChars_cons chars
      obtain ⟨joined', e', us, rfl, -⟩ := markChars_cons next
      have colons : Takes i i c.rest us := by
        rw [rest]
        exact (Takes.cons (Token.leads_of_isQuiet rfl)).trans (.cons (Token.leads_of_isQuiet rfl))
      have dropped : c.rest.drop 2 = us := by rw [rest]; rfl
      have others : Takes i i (c.rest.drop 2) d.rest := Advances.rest h
      rw [dropped] at others
      exact colons.trans others
    · exact Advances.rest h

instance : Advances (Takes i i) (callArgumentsInPath read) := by
  dsimp only [callArgumentsInPath]
  refine .bind inferInstance fun c => ?_
  split
  · refine .bind inferInstance fun _ => .ite advances_dropColons inferInstance
  · infer_instance

instance (stop : List Token → Bool) : Advances (Takes i i) (lifetimeBounds stop) := by
  dsimp only [lifetimeBounds]; infer_instance

instance (p : Parser Unit) [Advances (Takes i i) p] : Advances (Takes i i) (withBounds p) := by
  dsimp only [withBounds]; infer_instance

instance (declared : Bool) : Advances (Takes i i) (genericParameter read declared) := by
  dsimp only [genericParameter]; infer_instance

instance (declared : Bool) : Advances (Takes (i + 1) (i + 1)) (genericParameters read declared) := by
  dsimp only [genericParameters]; infer_instance

instance : Advances (Takes i i) (forLifetimes read) := by
  dsimp only [forLifetimes]
  have angles : Advances (Takes i i) (do
      word "for"
      mark "<"
      genericParameters read false
      mark ">") :=
    .bind inferInstance fun _ => advances_opens (advances_inside fun _ => inferInstance)
  infer_instance

instance (conditional : Bool) : Advances (Takes i i) (traitBoundParts read conditional) := by
  dsimp only [traitBoundParts]; infer_instance

instance : Advances (Takes i i) capture := by
  dsimp only [capture]
  have angles : Advances (Takes i i) (do
      mark "<"
      reorder isLifetime do
        repeatWhile do
          if ← peek (Ahead.mark ">") then return false
          if ← peek Ahead.lifetime then lifetime
          else if (← peek Ahead.name) || (← peek (Ahead.word "Self")) then anyName
          else expected ["lifetime", "identifier", "`>`"]
          if ← peek (Ahead.mark ">") then return false
          if ← peek (Ahead.mark ",") then mark "," else expected ["`,`", "`>`"]
          return true
      mark ">") :=
    advances_opens (advances_inside fun _ => inferInstance)
  infer_instance

instance (captures conditional : Bool) :
    Advances (Takes i i) (bound read captures conditional) := by
  dsimp only [bound]; infer_instance

instance (plus captures conditional : Bool) :
    Advances (Takes i i) (bounds read plus captures conditional) := by
  dsimp only [bounds]; infer_instance

instance : Advances (Takes i i) (furtherBounds read) := by dsimp only [furtherBounds]; infer_instance

instance (intro : Parser Unit) (plus captures conditional : Bool) (rule : String)
    [Advances (Takes i i) intro] :
    Advances (Takes i i) (boundsWithTrait read intro plus captures conditional rule) := by
  dsimp only [boundsWithTrait]; infer_instance

instance (intro : Parser Unit) (plus : Bool) [Advances (Takes i i) intro] :
    Advances (Takes i i) (objectBounds read intro plus) := by
  dsimp only [objectBounds]; infer_instance

instance : Advances (Takes i i) macroCall := by dsimp only [macroCall]; infer_instance

instance : Advances (Takes i i) foreignInterface := by dsimp only [foreignInterface]; infer_instance

instance : Advances (Takes i i) (functionType read) := by dsimp only [functionType]; infer_instance

instance (p : Parser Unit) [Advances (Takes i i) p] : Advances (Takes i i) (extendBounds p) := by
  dsimp only [extendBounds]
  refine .bind inferInstance fun c => ?_
  split <;> infer_instance

instance (plus : Bool) : Advances (Takes i i) (parenType read plus) := by
  dsimp only [parenType]
  repeat' first
    | refine .bind inferInstance fun _ => ?_
    | refine .ite ?_ ?_
    | infer_instance
    | split

instance : Advances (Takes i i) pathTypeOrBounds.extendMacro := by
  dsimp only [pathTypeOrBounds.extendMacro]
  refine .bind inferInstance fun c => ?_
  split <;> infer_instance

instance (plus : Bool) (lifetimes : List Phrase) :
    Advances (Takes i i) (pathTypeOrBounds read plus lifetimes) := by
  dsimp only [pathTypeOrBounds]
  repeat' first
    | refine .bind inferInstance fun _ => ?_
    | refine .ite ?_ ?_
    | infer_instance
    | split

instance (k : Kind) : Advances (Takes i i) (builtin k) := by
  dsimp only [builtin]
  have group : Advances (Takes i i) (do
      if !(← peek (Ahead.group .parenthesis)) then expected ["parentheses"]
      take) := ⟨by
    intro c u d h
    obtain ⟨_, _, peeked, h⟩ := run_bind_eq_ok.mp h
    cases peeked
    split at h
    · cases h
    · rename_i seen
      refine takes_of_take (fun t ts rest => ?_) h
      rw [rest] at seen
      cases t with
      | group x body o cl => rfl
      | _ => exact absurd rfl seen⟩
  infer_instance

instance (plus : Bool) : Advances (Takes i i) (type read plus) := by
  dsimp only [type]
  repeat' first
    | infer_instance
    | refine .bind inferInstance fun _ => ?_
    | refine .ite ?_ ?_

instance (n : ℕ) : CalmReader (reader n) := by
  induction n with
  | zero => exact ⟨fun _ => ⟨nofun⟩, fun _ _ => ⟨nofun⟩⟩
  | succ n ih =>
    constructor
    · intro i plus
      exact inferInstanceAs (Advances (Takes i i) (type (reader n) plus))
    · intro i captures conditional
      exact inferInstanceAs (Advances (Takes i i) (bound (reader n) captures conditional))

end Grammar
end FormulaBinding
