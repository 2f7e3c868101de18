import FormulaBinding.Proofs.Grammar.Remainder
import FormulaBinding.Proofs.Grammar.Settled

/-!
# Types are settled

Each rule of types adds settled phrases to the row.
-/

namespace FormulaBinding

open Token (AreCalm)
open Phrase (IsSettled)
open Grammar (operandKinds angleKinds writtenKinds)

namespace Parser

/-- Whether a parser that succeeds adds settled phrases only. -/
abbrev Settles {α : Type} (p : Parser α) : Prop := Adds (fun _ => True) IsSettled p

/-- Whether a parser that succeeds adds one settled phrase. -/
abbrev MakesSettled {α : Type} (p : Parser α) : Prop := Makes (fun _ => True) IsSettled p

variable {α β : Type} {p : Parser α}

theorem settles_of_row {p : Parser α}
    (h : ∀ {c a d}, p c = .ok (a, d) → ∃ t, d.row = .token t :: c.row ∧ t.isQuiet = true) :
    Settles p :=
  .of_row_cons fun run => by
    obtain ⟨t, row, quiet⟩ := h run
    exact ⟨_, row, .token quiet⟩

instance (w : String) : Settles (word w) := settles_of_row fun h => by
  obtain ⟨e, ts, -, rfl⟩ := word_eq_ok.mp h
  exact ⟨_, rfl, rfl⟩

instance (w : String) : Settles (word? w) where
  row _ h := by
    obtain ⟨-, e, ts, -, rfl⟩ | ⟨-, -, rfl⟩ := word?_eq_ok.mp h
    · exact ⟨[.token (.name w e)], rfl, by simpa using .token rfl⟩
    · exact ⟨[], rfl, nofun⟩

instance : Settles anyName := settles_of_row fun h => by
  obtain ⟨w, e, ts, -, rfl⟩ := anyName_eq_ok.mp h
  exact ⟨_, rfl, rfl⟩

instance : Settles name := settles_of_row fun h => by
  obtain ⟨w, e, ts, -, -, rfl⟩ := name_eq_ok.mp h
  exact ⟨_, rfl, rfl⟩

theorem row_of_take {c d : Cursor} {u : Unit} (quiet : ∀ t ts, c.rest = t :: ts → t.isQuiet = true)
    (h : take c = .ok (u, d)) : ∃ ps, d.row = ps ++ c.row ∧ ∀ q ∈ ps, IsSettled q := by
  rcases c with ⟨_ | ⟨t, ts⟩, inside, leftover, row⟩
  · cases h
    exact ⟨[], rfl, nofun⟩
  · cases h
    exact ⟨[.token t], rfl, by simpa using .token (quiet t ts rfl)⟩

theorem row_of_peek {test : List Token → Bool} [quiet : QuietTest test] {c d : Cursor} {u : Unit}
    (seen : test c.rest = true) (h : take c = .ok (u, d)) :
    ∃ ps, d.row = ps ++ c.row ∧ ∀ q ∈ ps, IsSettled q :=
  row_of_take (fun t ts rest => quiet.quiet t ts (rest ▸ seen)) h

theorem settles_take (test : List Token → Bool) [QuietTest test] (things : List String) :
    Settles (do if ← peek test then take else expected things) where
  row _ h := by
    obtain ⟨_, _, peeked, h⟩ := run_bind_eq_ok.mp h
    cases peeked
    split at h
    · rename_i seen
      exact row_of_peek seen h
    · cases h

instance : Settles lifetime := settles_take _ _

instance : Settles stringLiteral := settles_take _ _

instance : Settles lifetime? where
  row _ h := by
    obtain ⟨_, _, peeked, h⟩ := run_bind_eq_ok.mp h
    cases peeked
    split at h
    · rename_i seen
      obtain ⟨u, e, taken, h⟩ := run_bind_eq_ok.mp h
      cases h
      exact row_of_peek seen taken
    · cases h
      exact ⟨[], rfl, nofun⟩

instance : Settles anyGroup where
  row {c x d} _ h := by
    obtain ⟨_, _, got, h⟩ := run_bind_eq_ok.mp h
    cases got
    generalize rest : c.rest = ts at h
    split at h
    · obtain ⟨_, _, taken, h⟩ := run_bind_eq_ok.mp h
      rw [take_cons rest] at taken
      cases taken
      cases h
      exact ⟨[_], rfl, by simpa using .token rfl⟩
    · cases h

instance : Settles literal where
  row {c u d} _ h := by
    obtain ⟨_, _, got, h⟩ := run_bind_eq_ok.mp h
    cases got
    generalize rest : c.rest = ts at h
    split at h
    · rename_i joined e text e' ts
      obtain ⟨_, _, peeked, h⟩ := run_bind_eq_ok.mp h
      cases peeked
      split at h
      · obtain ⟨_, _, skipped, h⟩ := run_bind_eq_ok.mp h
        cases skipped
        obtain ⟨_, _, emitted, h⟩ := run_bind_eq_ok.mp h
        cases emitted
        have next : c.rest.drop 1 = .literal text e' :: ts := by rw [rest]; rfl
        have taken := (take_cons (c := { c with
          rest := c.rest.drop 1, row := .token (.mark '-' false e) :: c.row }) next).symm.trans h
        cases taken
        refine ⟨[.token (.literal text e'), .token (.mark '-' false e)], rfl, fun q hq => ?_⟩
        simp only [List.mem_cons, List.not_mem_nil, or_false] at hq
        rcases hq with rfl | rfl
        · exact .token rfl
        · exact .token rfl
      · cases h
    · rename_i other
      obtain ⟨_, _, peeked, h⟩ := run_bind_eq_ok.mp h
      cases peeked
      split at h
      · rename_i seen
        refine row_of_take (fun t us same => ?_) h
        exact isQuiet_of_literal (by rwa [same] at seen) fun joined e text e' ts here =>
          other joined e text e' ts (rest.symm.trans (same.trans here))
      · cases h

theorem row_of_takeMarks {cs : List Char} (quiet : ∀ x ∈ cs, x ∉ bracketChars) {c d : Cursor}
    {u : Unit} (seen : Ahead.markChars cs c.rest = true)
    (h : takeMarks cs.length c = .ok (u, d)) :
    ∃ ps, d.row = ps ++ c.row ∧ ∀ q ∈ ps, IsSettled q := by
  induction cs generalizing c with
  | nil =>
    cases h
    exact ⟨[], rfl, nofun⟩
  | cons x cs ih =>
    obtain ⟨joined, e, ts, rest, others⟩ := markChars_cons seen
    rw [List.length_cons, takeMarks_succ _ rest] at h
    obtain ⟨ps, row, all⟩ := ih (fun y hy => quiet y (List.mem_cons_of_mem x hy)) others h
    refine ⟨ps ++ [.token (.mark x (cs.length != 0) e)], by rw [row]; simp, fun q hq => ?_⟩
    rcases List.mem_append.mp hq with hq | hq
    · exact all q hq
    · rw [List.mem_singleton.mp hq]
      exact .token (isQuiet_mark (quiet x List.mem_cons_self) _ _)

instance (m : String) [quiet : QuietMark m] : Settles (mark m) where
  row {c u d} _ h := by
    obtain ⟨_, _, peeked, h⟩ := run_bind_eq_ok.mp h
    cases peeked
    split at h
    · rename_i seen
      exact row_of_takeMarks quiet.quiet seen h
    · cases h

instance (m : String) [quiet : QuietMark m] : Settles (mark? m) where
  row {c u d} _ h := by
    obtain ⟨_, _, peeked, h⟩ := run_bind_eq_ok.mp h
    cases peeked
    split at h
    · rename_i seen
      obtain ⟨_, _, taken, h⟩ := run_bind_eq_ok.mp h
      cases h
      exact row_of_takeMarks quiet.quiet seen taken
    · cases h
      exact ⟨[], rfl, nofun⟩

instance : AdmitsGroups IsSettled := ⟨IsSettled.group⟩

theorem makesSettled_node {k : Kind} (plain : k ∉ operandKinds) [parts : Settles p] :
    MakesSettled (node k p) where
  row {c a d} _ h := by
    obtain ⟨e, run, rfl⟩ := node_eq_ok.mp h
    obtain ⟨ps, row, all⟩ := parts.row (c := { c with row := [] }) trivial run
    refine ⟨_, rfl, .node plain fun q hq => ?_⟩
    rw [row, List.append_nil, List.mem_reverse] at hq
    exact all q hq

theorem settles_node {k : Kind} (plain : k ∉ operandKinds) [Settles p] : Settles (node k p) :=
  (makesSettled_node plain).adds

end Parser

namespace Grammar
open FormulaBinding.Parser

set_option synthInstance.maxSize 100000

/-- Whether each type and each bound that a reader reads is one settled phrase. -/
class SettledReader (read : Reader) : Prop where
  type : ∀ plus, MakesSettled (read (.type plus))
  bound : ∀ captures conditional, MakesSettled (read (.bound captures conditional))

variable {read : Reader} [settled : SettledReader read] [CalmReader read]
  [∀ nonterminal, Advances Remains (read nonterminal)]

instance (plus : Bool) : MakesSettled (read (.type plus)) := settled.type plus

instance (captures conditional : Bool) : MakesSettled (read (.bound captures conditional)) :=
  settled.bound captures conditional

instance (plus : Bool) : Settles (read (.type plus)) := (settled.type plus).adds

instance (captures conditional : Bool) : Settles (read (.bound captures conditional)) :=
  (settled.bound captures conditional).adds

instance : Settles (outerAttribute read) := settles_node (by decide)

instance : Settles (outerAttributes read) := by dsimp only [outerAttributes]; infer_instance

instance : Settles (attributedBlock read) := settles_node (by decide)

instance : MakesSettled (constValue read) := by
  dsimp only [constValue]
  refine .bind fun _ => .ite (makesSettled_node (by decide)) ?_
  refine .bind fun _ => .ite ?_ ?_
  · have segment : Settles (node .segment name) := settles_node (by decide)
    have path : Settles (node .path (node .segment name)) := settles_node (by decide)
    exact makesSettled_node (by decide)
  · exact .bind fun _ => .ite (makesSettled_node (by decide)) inferInstance

theorem isSettled_bindingParts {q : Phrase} (h : IsSettled q) :
    ∀ r ∈ bindingParts q, IsSettled r := by
  unfold bindingParts
  split
  · have path := h.parts (by decide) _ (List.mem_singleton_self _)
    have segment := path.parts (by decide) _ (List.mem_singleton_self _)
    exact segment.parts (by decide)
  · intro r hr
    rwa [List.mem_singleton.mp hr]

theorem remakes_extendBinding {k : Kind} (plain : k ∉ operandKinds) {p : Parser Unit}
    [parts : Settles p] : Remakes IsSettled (extendBinding k p) where
  row {c a d q row} last hq h := by
    rcases c with ⟨rest, inside, leftover, row'⟩
    cases last
    obtain ⟨_, _, got, h⟩ := run_bind_eq_ok.mp h
    cases got
    obtain ⟨_, _, moved, h⟩ := run_bind_eq_ok.mp h
    cases moved
    obtain ⟨e, run, rfl⟩ := node_eq_ok.mp h
    obtain ⟨_, e', emitted, run⟩ := run_bind_eq_ok.mp run
    rw [forIn_emit_eq_ok] at emitted
    subst emitted
    obtain ⟨ps, added, all⟩ := parts.row trivial run
    refine ⟨_, rfl, .node plain fun r hr => ?_⟩
    rw [added, List.mem_reverse] at hr
    simp only [List.append_nil, List.mem_append, List.mem_reverse] at hr
    exact hr.elim (all r) (isSettled_bindingParts hq r)

theorem remakes_extend {k : Kind} (plain : k ∉ operandKinds) {p : Parser Unit}
    [parts : Settles p] : Remakes IsSettled (extend k p) where
  row {c a d q row} last hq h := by
    rcases c with ⟨rest, inside, leftover, row'⟩
    cases last
    obtain ⟨_, _, got, h⟩ := run_bind_eq_ok.mp h
    cases got
    obtain ⟨_, _, moved, h⟩ := run_bind_eq_ok.mp h
    cases moved
    obtain ⟨e, run, rfl⟩ := node_eq_ok.mp h
    obtain ⟨_, e', emitted, run⟩ := run_bind_eq_ok.mp run
    cases emitted
    obtain ⟨ps, added, all⟩ := parts.row trivial run
    refine ⟨_, rfl, .node plain fun r hr => ?_⟩
    rw [added, List.mem_reverse] at hr
    simp only [List.mem_append, List.mem_singleton] at hr
    rcases hr with hr | rfl
    · exact all r hr
    · exact hq

instance (stop : List Token → Bool) (captures conditional : Bool) :
    Settles (boundsUntil read stop captures conditional) := by
  dsimp only [boundsUntil]; infer_instance

instance : MakesSettled (genericArgument read) := by
  dsimp only [genericArgument]
  refine .bind fun _ => .bind fun _ => .ite (makesSettled_node (by decide)) ?_
  have value : Settles (constValue read) := Makes.adds inferInstance
  refine .bind fun _ => .bind fun _ => .ite (makesSettled_node (by decide)) ?_
  refine .bind_remakes inferInstance fun _ => ?_
  have binding := remakes_extendBinding (k := .binding) (by decide) (p := do
    mark "="
    if (← peek Ahead.literal) || (← peek (Ahead.group .brace)) then constValue read
    else read (.type true))
  have constraint := remakes_extendBinding (k := .constraint) (by decide) (p := do
    mark ":"
    boundsUntil read (fun ts => Ahead.mark "," ts || Ahead.mark ">" ts) false true)
  have argument := remakes_extend (k := .typeArgument) (by decide) (p := pure ())
  infer_instance

/-- What may stand between angle brackets: a settled phrase or a comma. -/
def IsListed (q : Phrase) : Prop := q.isMark ',' = false → IsSettled q

/-- Whether a parser that succeeds adds settled phrases and commas only. -/
abbrev Lists {α : Type} (p : Parser α) : Prop := Adds (fun _ => True) IsListed p

theorem lists_of_settles {α : Type} {p : Parser α} [settled : Settles p] : Lists p where
  row _ h := by
    obtain ⟨ps, row, all⟩ := settled.row trivial h
    exact ⟨ps, row, fun q hq _ => all q hq⟩

instance : Lists (mark ",") where
  row _ h := by
    obtain ⟨joined, e, ts, -, rfl⟩ := (mark_eq_ok ',' rfl).mp h
    exact ⟨[.token (.mark ',' false e)], rfl, by simp [IsListed, Phrase.isMark]⟩

theorem mem_of_mem_pairArguments {ps : List Phrase} {x : Phrase × Option Phrase}
    (h : x ∈ pairArguments ps) {q : Phrase} (hq : q ∈ x.1 :: x.2.toList) : q ∈ ps := by
  induction ps using pairArguments.induct with
  | case1 => cases h
  | case2 p comma rest isComma ih =>
    simp only [pairArguments, isComma, if_true, List.mem_cons] at h
    rcases h with rfl | h
    · simp only [Option.toList_some, List.mem_cons, List.not_mem_nil, or_false] at hq
      rcases hq with rfl | rfl <;> simp
    · exact List.mem_cons_of_mem p (List.mem_cons_of_mem comma (ih h))
  | case3 p next rest noComma ih =>
    simp only [pairArguments, noComma, Bool.false_eq_true, if_false, List.mem_cons] at h
    rcases h with rfl | h
    · have same : q = p := by simpa using hq
      rw [same]
      exact List.mem_cons_self
    · exact List.mem_cons_of_mem p (ih h)
  | case4 p =>
    rw [pairArguments, List.mem_singleton] at h
    subst h
    simpa using hq

theorem mem_inOrder {first : Phrase → Bool} {ps : List Phrase} {q : Phrase}
    (h : q ∈ inOrder first (pairArguments ps)) : q ∈ ps ∨ q = comma := by
  have flat {xs : List (Phrase × Option Phrase)} (part : ∀ x ∈ xs, x ∈ pairArguments ps)
      (hq : q ∈ xs.flatMap fun x => x.1 :: x.2.toList) : q ∈ ps := by
    obtain ⟨x, hx, hq⟩ := List.mem_flatMap.mp hq
    exact mem_of_mem_pairArguments (part x hx) hq
  simp only [inOrder, List.partition_eq_filter_filter, List.mem_append] at h
  rcases h with (h | h) | h
  · exact .inl (flat (fun x hx => (List.mem_filter.mp hx).1) h)
  · split at h
    · cases h
    · exact .inr (List.mem_singleton.mp h)
  · exact .inl (flat (fun x hx => (List.mem_filter.mp hx).1) h)

instance (first : Phrase → Bool) (p : Parser Unit) [Advances Remains p] [Lists p] :
    Lists (reorder first p) := by
  dsimp only [reorder]
  refine .collect_bind (ψ := IsListed) fun _ ps all => ?_
  refine .bind (.forIn_emit fun q hq => ?_) fun _ => inferInstance
  rcases mem_inOrder hq with hq | rfl
  · exact all q hq
  · exact nofun

/-- A row in front of an opening bracket, last phrase first. -/
def InFront (row : List Phrase) : Prop := ∀ q ∈ row, IsSettled q

def IsInside (row : List Phrase) : Prop := ∃ front inside j e,
  row = inside ++ .token (.mark '<' j e) :: front ∧ InFront front ∧ ∀ q ∈ inside, IsListed q

/-- A row that has got behind the closing bracket. -/
def IsBehind (row : List Phrase) : Prop := ∃ behind before j e,
  row = behind ++ .token (.mark '>' j e) :: before ∧ IsInside before ∧ ∀ q ∈ behind, IsSettled q

/-- Whether a parser that succeeds brings a row of the first sort to one of the second. -/
class Brings (A B : List Phrase → Prop) {α : Type} (p : Parser α) : Prop where
  row : ∀ {c a d}, A c.row → p c = .ok (a, d) → B d.row

section
variable {α β : Type} {A B C : List Phrase → Prop} {p : Parser α}

theorem Brings.bind {f : α → Parser β} (first : Brings A B p) (second : ∀ a, Brings B C (f a)) :
    Brings A C (p >>= f) where
  row before h := by
    obtain ⟨a, e, h, h'⟩ := run_bind_eq_ok.mp h
    exact (second a).row (first.row before h) h'

instance [settled : Settles p] : Brings InFront InFront p where
  row before h := by
    obtain ⟨ps, row, all⟩ := settled.row trivial h
    intro q hq
    rw [row] at hq
    exact (List.mem_append.mp hq).elim (all q) (before q)

instance [listed : Lists p] : Brings IsInside IsInside p where
  row := by
    rintro c a d ⟨front, inside, j, e, row, before, within⟩ h
    obtain ⟨ps, row', all⟩ := listed.row trivial h
    refine ⟨front, ps ++ inside, j, e, by rw [row', row, List.append_assoc], before, ?_⟩
    intro q hq
    exact (List.mem_append.mp hq).elim (all q) (within q)

instance [settled : Settles p] : Brings IsBehind IsBehind p where
  row := by
    rintro c a d ⟨behind, before, j, e, row, inside, after⟩ h
    obtain ⟨ps, row', all⟩ := settled.row trivial h
    refine ⟨ps ++ behind, before, j, e, by rw [row', row, List.append_assoc], inside, ?_⟩
    intro q hq
    exact (List.mem_append.mp hq).elim (all q) (after q)

instance : Brings InFront IsInside (mark "<") where
  row {c u d} before h := by
    obtain ⟨joined, e, ts, -, rfl⟩ := (mark_eq_ok '<' rfl).mp h
    exact ⟨c.row, [], false, e, rfl, before, nofun⟩

instance : Brings IsInside IsBehind (mark ">") where
  row {c u d} inside h := by
    obtain ⟨joined, e, ts, -, rfl⟩ := (mark_eq_ok '>' rfl).mp h
    exact ⟨[], c.row, false, e, rfl, inside, nofun⟩

theorem makes_angles {k : Kind} (role : k ∈ angleKinds) (angles : Brings InFront IsBehind p) :
    MakesSettled (node k p) where
  row {c a d} _ h := by
    obtain ⟨e, run, rfl⟩ := node_eq_ok.mp h
    obtain ⟨behind, before, j, x, row, ⟨front, inside, j', x', row', first, within⟩, after⟩ :=
      angles.row (c := { c with row := [] }) nofun run
    refine ⟨_, rfl, ?_⟩
    subst row'
    rw [row]
    simp only [List.reverse_append, List.reverse_cons, List.append_assoc, List.cons_append,
      List.nil_append]
    refine .angles role ?_ ?_ ?_
    · exact fun q hq => first q (List.mem_reverse.mp hq)
    · exact fun q hq => within q (List.mem_reverse.mp hq)
    · exact fun q hq => after q (List.mem_reverse.mp hq)

end

instance : Lists (genericArgument read) := @lists_of_settles _ _ (Makes.adds inferInstance)

instance : MakesSettled (genericArguments read) := by
  apply makes_angles (by decide)
  apply Brings.bind (B := InFront) inferInstance
  intro _
  apply Brings.bind (B := IsInside) inferInstance
  intro _
  apply Brings.bind (B := IsInside) inferInstance
  intro _
  infer_instance

instance (plus : Bool) : Settles (returnType read plus) := by
  dsimp only [returnType]
  refine .bind inferInstance fun _ => .ite ⟨fun {c u d} _ h => ?_⟩ inferInstance
  obtain ⟨e, run, rfl⟩ := node_eq_ok.mp h
  obtain ⟨_, e', arrow, run⟩ := run_bind_eq_ok.mp run
  obtain ⟨_, _, peeked, arrow⟩ := run_bind_eq_ok.mp arrow
  cases peeked
  split at arrow
  · rename_i seen
    have chars : Ahead.markChars ['-', '>'] ({ c with row := [] } : Cursor).rest = true := seen
    obtain ⟨joined, x, ts, rest, next⟩ := markChars_cons chars
    obtain ⟨joined', x', us, rfl, -⟩ := markChars_cons next
    have two : takeMarks 2 { c with row := [] } = .ok ((), e') := arrow
    rw [takeMarks_succ _ rest, takeMarks_succ _ rfl] at two
    cases two
    obtain ⟨q, row, isSettled⟩ := (settled.type plus).row trivial run
    refine ⟨[_], rfl, fun r hr => ?_⟩
    have front : ∀ q ∈ ([] : List Phrase), IsSettled q := nofun
    rw [List.mem_singleton.mp hr, row]
    exact .arrow front (by simpa using isSettled)
  · cases arrow

instance : MakesSettled (callArguments read) := makesSettled_node (by decide)

instance : Settles (callArguments read) := Makes.adds inferInstance

instance : Settles (genericArguments read) := Makes.adds inferInstance

instance (inExpr : Bool) : Settles (segment read inExpr) := settles_node (by decide)

instance (inExpr : Bool) : Settles (pathParts read inExpr) := by
  dsimp only [pathParts]; infer_instance

/-- Whether a phrase consists of settled phrases in a row. -/
def IsRow (q : Phrase) : Prop := ∃ k parts, q = .node k parts ∧ k ∉ operandKinds ∧
  ∀ r ∈ parts, IsSettled r

theorem IsRow.isSettled {q : Phrase} (h : IsRow q) : IsSettled q := by
  obtain ⟨k, parts, rfl, plain, all⟩ := h
  exact .node plain all

theorem makes_row {α : Type} {k : Kind} (plain : k ∉ operandKinds) {p : Parser α}
    [parts : Settles p] : Makes (fun _ => True) IsRow (node k p) where
  row {c a d} _ h := by
    obtain ⟨e, run, rfl⟩ := node_eq_ok.mp h
    obtain ⟨ps, row, all⟩ := parts.row (c := { c with row := [] }) trivial run
    refine ⟨_, rfl, k, _, rfl, plain, fun q hq => ?_⟩
    rw [row, List.append_nil, List.mem_reverse] at hq
    exact all q hq

theorem makesSettled_of_row {α : Type} {p : Parser α} (h : Makes (fun _ => True) IsRow p) :
    MakesSettled p where
  row _ run := by
    obtain ⟨q, row, isRow⟩ := h.row trivial run
    exact ⟨q, row, isRow.isSettled⟩

instance (inExpr : Bool) : Makes (fun _ => True) IsRow (path read inExpr) := makes_row (by decide)

instance (inExpr : Bool) : Settles (path read inExpr) :=
  (makesSettled_of_row inferInstance).adds

instance (inExpr : Bool) : MakesSettled (anyPath read inExpr) := by
  dsimp only [anyPath]
  refine .bind fun _ => .ite (makes_angles (by decide) ?_) (makesSettled_of_row inferInstance)
  have lists : Lists (read (.type true)) := lists_of_settles
  have as : Lists (word? "as") := lists_of_settles
  have trait : Lists (path read false) := lists_of_settles
  have behind : Brings IsInside IsBehind (do
      mark ">"
      mark "::"
      repeatWhile do
        segment read inExpr
        if !(← peek (Ahead.mark "::")) then return false
        mark "::"
        return true) :=
    .bind (B := IsBehind) inferInstance fun _ => inferInstance
  apply Brings.bind (B := IsInside) inferInstance
  intro _
  apply Brings.bind (B := IsInside) inferInstance
  intro _
  apply Brings.bind (B := IsInside) inferInstance
  rintro (_ | _)
  · exact behind
  · exact .bind (B := IsInside) inferInstance fun _ => behind

instance (inExpr : Bool) : Settles (anyPath read inExpr) := Makes.adds inferInstance

theorem IsRow.addToLastSegment {arguments : List Phrase} (all : ∀ q ∈ arguments, IsSettled q)
    {p : Phrase} (h : IsRow p) : IsRow (addToLastSegment arguments p) := by
  obtain ⟨k, parts, rfl, plain, settled⟩ := h
  simp only [Grammar.addToLastSegment]
  split
  · rename_i inner before reversed
    have split : parts = before.reverse ++ [.node .segment inner] := by
      rw [← List.reverse_reverse parts, reversed, List.reverse_cons]
    subst split
    have last : IsSettled (.node .segment inner) :=
      settled _ (List.mem_append_right _ (List.mem_singleton_self _))
    refine ⟨k, _, rfl, plain, fun q hq => ?_⟩
    rcases List.mem_append.mp hq with hq | hq
    · exact settled q (List.mem_append_left _ hq)
    · rw [List.mem_singleton.mp hq]
      refine .node (by decide) fun r hr => ?_
      rcases List.mem_append.mp hr with hr | hr
      · exact last.parts (by decide) r (List.mem_filter.mp hr).1
      · exact all r hr
  · refine ⟨k, _, rfl, plain, fun q hq => ?_⟩
    exact (List.mem_append.mp hq).elim (settled q) (all q)

instance : Remakes IsRow (callArgumentsInPath read) where
  row {c u d q row} last isRow h := by
    rcases c with ⟨rest, inside, leftover, row'⟩
    cases last
    obtain ⟨_, _, got, h⟩ := run_bind_eq_ok.mp h
    cases got
    have added {c : Cursor} (run : (do
        let (_, arguments) ← collect (callArguments read)
        modify fun c => { c with row := addToLastSegment arguments q :: row } : Parser Unit) c =
          .ok (u, d)) : ∃ q, d.row = q :: row ∧ IsRow q := by
      obtain ⟨⟨_, arguments⟩, _, collected, run⟩ := run_bind_eq_ok.mp run
      have all := forall_of_collect (S := fun _ => True) (ψ := IsSettled) trivial collected
      cases run
      exact ⟨_, rfl, isRow.addToLastSegment all⟩
    obtain ⟨_, _, peeked, h⟩ := run_bind_eq_ok.mp h
    cases peeked
    split at h
    · obtain ⟨_, _, peeked, h⟩ := run_bind_eq_ok.mp h
      cases peeked
      split at h
      · obtain ⟨_, _, -, h⟩ := run_bind_eq_ok.mp h
        exact added h
      · exact added h
    · cases h
      exact ⟨q, rfl, isRow⟩

instance (stop : List Token → Bool) : Settles (lifetimeBounds stop) := by
  dsimp only [lifetimeBounds]; infer_instance

instance (p : Parser Unit) [Advances Remains p] [Settles p] : Settles (withBounds p) := by
  dsimp only [withBounds]
  refine .bind inferInstance fun _ => .ite ?_ inferInstance
  refine .collect_bind (ψ := IsSettled) fun _ ps all => .ite ?_ inferInstance
  exact .bind (.forIn_emit all) fun _ => inferInstance

instance (declared : Bool) : Settles (genericParameter read declared) := by
  have value : Settles (constValue read) := Makes.adds inferInstance
  exact settles_node (by decide)

instance : Settles (forLifetimes read) := by
  dsimp only [forLifetimes]
  refine .bind inferInstance fun _ => .ite (.bind (makes_angles (by decide) ?_).adds fun _ =>
    inferInstance) inferInstance
  have parameter : Lists (genericParameter read false) := lists_of_settles
  have parameters : Lists (genericParameters read false) := by
    dsimp only [genericParameters]; infer_instance
  apply Brings.bind (B := InFront) inferInstance
  intro _
  apply Brings.bind (B := IsInside) inferInstance
  intro _
  exact .bind (B := IsInside) inferInstance fun _ => inferInstance

/-- The arguments of a function-like bound go into the path in front of them. -/
instance {α : Type} (f : Unit → Parser α) [∀ u, Settles (f u)] :
    Settles (path read false >>= fun _ => callArgumentsInPath read >>= f) := by
  have called : Makes (fun _ => True) IsRow (path read false >>= fun _ => callArgumentsInPath read) :=
    .bind_remakes inferInstance fun _ => inferInstance
  rw [← bind_assoc]
  exact .bind (makesSettled_of_row called).adds inferInstance

instance (conditional : Bool) : Settles (traitBoundParts read conditional) := by
  dsimp only [traitBoundParts]; infer_instance

instance : MakesSettled capture := by
  dsimp only [capture]
  apply makes_angles (by decide)
  apply Brings.bind (B := InFront) inferInstance
  intro _
  apply Brings.bind (B := IsInside) inferInstance
  intro _
  refine .bind (B := IsInside) ?_ fun _ => inferInstance
  have lifetime : Lists Parser.lifetime := lists_of_settles
  have name : Lists Parser.anyName := lists_of_settles
  infer_instance

/-- Tokens that are kept are those that were taken. -/
theorem row_of_emitWritten {k : Kind} (role : k ∈ writtenKinds) {before : List Token}
    {c d : Cursor} {u : Unit} (takes : Takes 0 0 before c.rest)
    (h : emitWritten k before c = .ok (u, d)) : ∃ q, d.row = q :: c.row ∧ IsSettled q := by
  obtain ⟨taken, rfl, calm⟩ := takes
  cases h
  refine ⟨_, rfl, ?_⟩
  have same : (taken ++ c.rest).take ((taken ++ c.rest).length - c.rest.length) = taken := by simp
  rw [same]
  exact .kept role calm

theorem makes_verbatim {α : Type} {k : Kind} (role : k ∈ writtenKinds) {p : Parser α}
    [takes : Advances (Takes 0 0) (verbatim k p)] : MakesSettled (verbatim k p) where
  row {c a d} _ h := by
    have taken : Takes 0 0 c.rest d.rest := takes.rest h
    obtain ⟨_, _, got, h⟩ := run_bind_eq_ok.mp h
    cases got
    obtain ⟨x, e, collected, h⟩ := run_bind_eq_ok.mp h
    obtain ⟨_, f, written, h⟩ := run_bind_eq_ok.mp h
    cases h
    have kept : e.rest = d.rest := by cases written; rfl
    obtain ⟨q, row, isSettled⟩ := row_of_emitWritten role (kept ▸ taken) written
    obtain ⟨_, -, -, rfl⟩ := collect_eq_ok.mp collected
    exact ⟨q, row, isSettled⟩

instance (captures conditional : Bool) : MakesSettled (bound read captures conditional) := by
  dsimp only [bound]
  refine .bind fun _ => .bind fun _ => .ite (makesSettled_node (by decide)) ?_
  refine .bind fun _ => .ite (.bind_remakes inferInstance fun _ => inferInstance) ⟨?_⟩
  intro c u d _ h
  obtain ⟨_, _, got, h⟩ := run_bind_eq_ok.mp h
  cases got
  obtain ⟨⟨ordinary, parts⟩, e, collected, h⟩ := run_bind_eq_ok.mp h
  have all := forall_of_collect (S := fun _ => True) (ψ := IsSettled) trivial collected
  dsimp only at h
  split at h
  · obtain ⟨_, -, -, rfl⟩ := collect_eq_ok.mp collected
    cases h
    exact ⟨_, rfl, .node (by decide) all⟩
  · obtain ⟨q, row, isSettled⟩ := row_of_emitWritten (by decide) (Advances.rest collected) h
    obtain ⟨_, -, -, rfl⟩ := collect_eq_ok.mp collected
    exact ⟨q, row, isSettled⟩

instance (plus captures conditional : Bool) : Settles (bounds read plus captures conditional) := by
  dsimp only [bounds]; infer_instance

instance : Settles (furtherBounds read) := by dsimp only [furtherBounds]; infer_instance

instance (intro : Parser Unit) (plus captures conditional : Bool) (rule : String)
    [Advances Remains intro] [Settles intro] :
    Settles (boundsWithTrait read intro plus captures conditional rule) := by
  dsimp only [boundsWithTrait]
  refine .bind inferInstance fun _ => .bind inferInstance fun _ => ?_
  refine .collect_bind (ψ := IsSettled) fun _ ps all => .ite ?_ inferInstance
  exact .bind (.forIn_emit all) fun _ => inferInstance

instance (intro : Parser Unit) (plus : Bool) [Advances Remains intro] [Settles intro] :
    Settles (objectBounds read intro plus) := by
  dsimp only [objectBounds]; infer_instance

instance : Settles macroCall := by dsimp only [macroCall]; infer_instance

instance : Settles foreignInterface := by
  dsimp only [foreignInterface]
  exact .bind inferInstance fun _ => .ite (.bind (settles_node (by decide)) fun _ => inferInstance)
    inferInstance

instance : Settles (functionType read) := by dsimp only [functionType]; infer_instance

theorem settled_of_extendBounds {p : Parser Unit} [bounds : Settles p] {c d : Cursor} {u : Unit}
    {parts row : List Phrase} (last : c.row = .node .pathType parts :: row)
    (all : ∀ q ∈ parts, IsSettled q) (h : extendBounds p c = .ok (u, d)) :
    ∃ q, d.row = q :: row ∧ IsSettled q := by
  rcases c with ⟨rest, inside, leftover, row'⟩
  cases last
  obtain ⟨_, _, got, h⟩ := run_bind_eq_ok.mp h
  cases got
  obtain ⟨_, _, moved, h⟩ := run_bind_eq_ok.mp h
  cases moved
  obtain ⟨e, run, rfl⟩ := node_eq_ok.mp h
  obtain ⟨_, _, emitted, run⟩ := run_bind_eq_ok.mp run
  cases emitted
  obtain ⟨ps, added, settled⟩ := bounds.row trivial run
  refine ⟨_, rfl, .node (by decide) fun r hr => ?_⟩
  rw [added, List.mem_reverse] at hr
  rcases List.mem_append.mp hr with hr | hr
  · exact settled r hr
  · rw [List.mem_singleton.mp hr]
    exact .node (by decide) all

theorem settled_of_extendMacro {c d : Cursor} {u : Unit} {k : Kind} {parts row : List Phrase}
    (last : c.row = .node k parts :: row) (plain : k ∉ operandKinds)
    (all : ∀ q ∈ parts, IsSettled q) (h : pathTypeOrBounds.extendMacro c = .ok (u, d)) :
    ∃ q, d.row = q :: row ∧ IsSettled q := by
  rcases c with ⟨rest, inside, leftover, row'⟩
  cases last
  obtain ⟨_, _, got, h⟩ := run_bind_eq_ok.mp h
  cases got
  obtain ⟨_, _, moved, h⟩ := run_bind_eq_ok.mp h
  cases moved
  have extended : MakesSettled (node k do
      for part in parts do emit part
      discard macroCall) := by
    have parts : Settles (do
        for part in parts do emit part
        discard macroCall : Parser Unit) := .bind (.forIn_emit all) fun _ => inferInstance
    exact makesSettled_node plain
  exact extended.row trivial h

omit [CalmReader read] in
theorem makes_pathTypeOrBounds (plus : Bool) {lifetimes : List Phrase}
    (all : ∀ q ∈ lifetimes, IsSettled q) : MakesSettled (pathTypeOrBounds read plus lifetimes) where
  row {c u d} _ h := by
    obtain ⟨_, e, path, h⟩ := run_bind_eq_ok.mp h
    obtain ⟨x, run, rfl⟩ := node_eq_ok.mp path
    obtain ⟨q, row, isSettled⟩ := Makes.row (S := fun _ => True) (φ := IsSettled) trivial run
    rcases x with ⟨rest, inside, leftover, row'⟩
    dsimp only at row
    subst row
    have isPath : IsSettled (.node .pathType [q]) := .node (by decide) (by simpa using isSettled)
    obtain ⟨_, _, got, h⟩ := run_bind_eq_ok.mp h
    cases got
    simp only [List.reverse_singleton, List.head?_cons] at h
    split at h
    · cases h
      exact ⟨_, rfl, isPath⟩
    obtain ⟨_, _, peeked, h⟩ := run_bind_eq_ok.mp h
    cases peeked
    obtain ⟨_, _, peeked, h⟩ := run_bind_eq_ok.mp h
    cases peeked
    split at h
    · obtain ⟨_, _, got, h⟩ := run_bind_eq_ok.mp h
      cases got
      obtain ⟨_, _, moved, h⟩ := run_bind_eq_ok.mp h
      cases moved
      exact settled_of_extendMacro rfl (by decide) (by simpa using isSettled) h
    obtain ⟨_, _, peeked, h⟩ := run_bind_eq_ok.mp h
    cases peeked
    split at h
    · obtain ⟨_, _, moved, h⟩ := run_bind_eq_ok.mp h
      cases moved
      have parts : ∀ r ∈ lifetimes ++ [q], IsSettled r := by
        intro r hr
        rcases List.mem_append.mp hr with hr | hr
        · exact all r hr
        · rwa [List.mem_singleton.mp hr]
      exact settled_of_extendBounds rfl parts h
    · cases h
      exact ⟨_, rfl, isPath⟩

theorem parenAsBound?_isSettled {p first : Phrase} (h : parenAsBound? p = some first)
    (inside : ∀ d qs o c, p = .node .parenType [.group d qs o c] → ∀ q ∈ qs, IsSettled q) :
    IsSettled first := by
  unfold parenAsBound? at h
  split at h
  · cases h
    exact .node (by decide) (by simpa using .group _ _ _ _)
  · cases h
    exact .node (by decide) (by simpa using .group _ _ _ _)
  · cases h
    have bounds := inside _ _ _ _ rfl _ (List.mem_singleton_self _)
    exact bounds.parts (by decide) _ (List.mem_singleton_self _)
  · cases h

omit [CalmReader read] [∀ nonterminal, Advances Remains (read nonterminal)] in
/-- A tuple has a comma behind its first type; otherwise the parentheses are around one type. -/
theorem group_of_collect {others : Parser Unit} {c d : Cursor} {isTuple : Bool}
    {parts : List Phrase} (h : collect (parens do
      read (.type true)
      if ← peek (Ahead.mark ",") then
        mark ","
        others
        return true
      return false) c = .ok ((isTuple, parts), d)) :
    ∃ qs o cl, parts = [.group .parenthesis qs o cl] ∧
      (isTuple = false → ∀ q ∈ qs, IsSettled q) := by
  obtain ⟨x, run, rfl, -⟩ := collect_eq_ok.mp h
  obtain ⟨body, o, cl, after, content, -, run, rfl⟩ := inGroup_eq_ok.mp run
  refine ⟨_, o, cl, rfl, ?_⟩
  rintro rfl
  obtain ⟨_, e, type, run⟩ := run_bind_eq_ok.mp run
  obtain ⟨q, row, isSettled⟩ := Makes.row (S := fun _ => True) (φ := IsSettled) trivial type
  obtain ⟨_, _, peeked, run⟩ := run_bind_eq_ok.mp run
  cases peeked
  split at run
  · obtain ⟨_, _, -, run⟩ := run_bind_eq_ok.mp run
    obtain ⟨_, _, -, run⟩ := run_bind_eq_ok.mp run
    cases run
  · cases run
    rw [row]
    simpa using isSettled

instance (plus : Bool) : MakesSettled (parenType read plus) := by
  dsimp only [parenType]
  refine .bind fun _ => .ite (makesSettled_node (by decide)) (.ite (makesSettled_node (by decide)) (.ite ?_ ?_))
  · have bound : Settles (node .traitBound (parens (discard (traitBoundParts read false)))) :=
      settles_node (by decide)
    exact makesSettled_node (by decide)
  refine .collect_bind group_of_collect fun isTuple parts => ?_
  rintro ⟨qs, o, cl, rfl, alone⟩
  have group : ∀ q ∈ [Phrase.group .parenthesis qs o cl], IsSettled q := by
    simpa using .group _ _ _ _
  cases isTuple with
  | true => exact .emit (.node (by decide) group)
  | false =>
    refine .bind fun more => ?_
    dsimp only
    split
    · rename_i first found
      have isSettled : IsSettled first := by
        split_ifs at found
        refine parenAsBound?_isSettled found fun d qs o c same => ?_
        cases same
        exact alone rfl
      have parts : Settles (do emit first; furtherBounds read) :=
        .bind (.emit isSettled) fun _ => inferInstance
      exact makesSettled_node (by decide)
    · exact .emit (.node (by decide) group)

instance (plus : Bool) : MakesSettled (type read plus) := by
  dsimp only [type]
  refine .collect_bind (P := fun _ ps => ∀ q ∈ ps, IsSettled q)
    (forall_of_collect (S := fun _ => True) trivial) fun generic lifetimes all => ?_
  dsimp only
  have generics : Settles (do
      for l in lifetimes do emit l
      functionType read : Parser Unit) := .bind (.forIn_emit all) fun _ => inferInstance
  have function : MakesSettled (node .functionType do
      for l in lifetimes do emit l
      functionType read) := makesSettled_node (by decide)
  have kept : Advances (Takes 0 0) (builtin .verbatimType) := inferInstance
  have builtin : MakesSettled (builtin .verbatimType) := @makes_verbatim _ _ (by decide) _ kept
  have path : MakesSettled (pathTypeOrBounds read plus lifetimes) := makes_pathTypeOrBounds plus all
  have starred := makes_verbatim (k := .verbatimType) (by decide)
    (p := objectBounds read (do word "dyn"; discard (mark? "*")) plus)
  have dynamic := makesSettled_node (k := .dynamicType) (by decide)
    (p := objectBounds read (do word "dyn"; discard (mark? "*")) plus)
  have sequence : MakesSettled (do
      let (isArray, parts) ← collect do
        brackets do
          read (.type true)
          if ← mark? ";" then
            read (.expr true)
            return true
          return false
      emit (.node (if isArray then .arrayType else .sliceType) parts)) :=
    .collect_bind (P := fun _ ps => ∀ q ∈ ps, IsSettled q)
      (forall_of_collect (S := fun _ => True) trivial) fun isArray parts all =>
        .emit (.node (by cases isArray <;> decide) all)
  have pointer := makesSettled_node (k := .pointerType) (by decide) (p := do
    mark "*"
    if (← peek (Ahead.word "const")) || (← peek (Ahead.word "mut")) then anyName
    else expected ["`const`", "`mut`"]
    read (.type false))
  have reference := makesSettled_node (k := .referenceType) (by decide) (p := do
    mark "&"
    discard lifetime?
    discard (word? "mut")
    read (.type false))
  have never := makesSettled_node (k := .neverType) (by decide) (p := mark "!")
  have bounds := makesSettled_node (k := .boundsType) (by decide) (p := boundsWithTrait read (word "impl")
    plus true true "at least one trait must be specified")
  have inferred := makesSettled_node (k := .inferredType) (by decide) (p := anyName)
  have object := makesSettled_node (k := .dynamicType) (by decide) (p := objectBounds read (pure ()) true)
  repeat' first
    | infer_instance
    | refine .bind fun _ => ?_
    | refine .ite ?_ ?_

instance (n : ℕ) : SettledReader (reader n) := by
  induction n with
  | zero => exact ⟨fun _ => ⟨nofun⟩, fun _ _ => ⟨nofun⟩⟩
  | succ n ih =>
    constructor
    · intro plus
      exact inferInstanceAs (MakesSettled (type (reader n) plus))
    · intro captures conditional
      exact inferInstanceAs (MakesSettled (bound (reader n) captures conditional))

/-- A type that is read closes every angle bracket and ends no list. -/
theorem areCalm_of_readType {text : String} {p : Phrase} (h : readType text = .ok p) :
    AreCalm p.tokens := by
  obtain ⟨ts, -, h⟩ := bind_eq_ok.mp h
  obtain ⟨⟨u, row⟩, read, h⟩ := bind_eq_ok.mp h
  obtain ⟨d, run, -, -, rfl⟩ := runAll_eq_ok.mp read
  obtain ⟨q, added, isSettled⟩ := (SettledReader.type true).row trivial run
  have alone : d.row.reverse = [q] := by rw [added]; rfl
  rw [alone] at h
  cases h
  exact isSettled.written.areCalm

end Grammar
end FormulaBinding
