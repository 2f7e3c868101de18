import FormulaBinding.Member.Build
import FormulaBinding.Proofs.Body.Freshness
import Mathlib.Data.List.Nodup
import Mathlib.Data.Nat.Notation
import Mathlib.Tactic.SplitIfs

/-!
# What a body consists of

A body of a template binds the distinct placeholders that name a parameter, where each first
appears, and discards the parameters that are left.
-/

namespace FormulaBinding

theorem nodup_eraseDups {α : Type} [BEq α] [LawfulBEq α] (as : List α) : as.eraseDups.Nodup := by
  match as with
  | [] => exact List.nodup_nil
  | a :: as =>
    have rest := nodup_eraseDups (as.filter fun b => !b == a)
    have fresh : a ∉ (as.filter fun b => !b == a).eraseDups := by
      intro mem
      have kept := (List.mem_filter.mp (List.mem_eraseDups.mp mem)).2
      simp at kept
    rw [List.eraseDups_cons]
    exact List.nodup_cons.mpr ⟨fresh, rest⟩
  termination_by as.length
  decreasing_by exact Nat.lt_succ_of_le (List.length_filter_le _ _)

namespace Template

/-- The distinct names of the placeholders of a template, in order of first appearance. -/
def distinctNames (scheme : Enclosure) (template : String) : List String :=
  (names scheme template.toList).eraseDups.map String.ofList

theorem nodup_distinctNames (scheme : Enclosure) (template : String) :
    (distinctNames scheme template).Nodup :=
  (nodup_eraseDups _).map fun _ _ => String.ofList_injective

/-- What is collected is one placeholder for each name that was not seen, where it appears first. -/
theorem eq_map_of_collect {scheme : Enclosure} {all seen : List (List Char)}
    {found : List Placeholder} (h : collect scheme all seen = .ok found) :
    found = (all.filter (· ∉ seen)).eraseDups.map (placeholder scheme) := by
  induction all generalizing seen found with
  | nil =>
    cases h
    rfl
  | cons name all ih =>
    rw [collect] at h
    split_ifs at h with long known many
    · rw [ih h, List.filter_cons_of_neg (by simpa using known)]
    · cases later : collect scheme all (name :: seen) with
      | error e =>
        rw [later] at h
        cases h
      | ok rest =>
        rw [later] at h
        cases h
        have others : (all.filter (· ∉ seen)).filter (fun b => !b == name) =
            all.filter (· ∉ name :: seen) := by
          rw [List.filter_filter]
          refine List.filter_congr fun b _ => ?_
          simp [not_or, beq_eq_decide]
        rw [List.filter_cons_of_pos (by simpa using known), List.eraseDups_cons, others,
          List.map_cons, ← ih later]

/-- The placeholders of a template are those of its names, each where it appears first. -/
theorem eq_map_of_placeholders {scheme : Enclosure} {template : String} {found : List Placeholder}
    (h : placeholders scheme template = .ok found) :
    found = (names scheme template.toList).eraseDups.map (placeholder scheme) := by
  rw [placeholders] at h
  split_ifs at h
  simpa using eq_map_of_collect h

theorem map_name_placeholders {scheme : Enclosure} {template : String} {found : List Placeholder}
    (h : placeholders scheme template = .ok found) :
    found.map Placeholder.name = distinctNames scheme template := by
  rw [eq_map_of_placeholders h, distinctNames, List.map_map]
  rfl

end Template

namespace BodyBuilder

/-- The statements that bind parameters to placeholders of their names. -/
def binds (evaluator : String) (names : List String) : List Statement :=
  names.map fun name => .bindParameter evaluator name name

theorem filterMap_boundParameter?_binds (evaluator : String) (names : List String) :
    (binds evaluator names).filterMap Statement.boundParameter? = names := by
  induction names with
  | nil => rfl
  | cons name names ih => exact congrArg (name :: ·) ih

/-- Binding makes the evaluator mutable and adds a statement for each name. -/
theorem foldl_bind {b : BodyBuilder} {template : String} {isMutable : Bool}
    {statements : List Statement}
    (h : b.statements = .declareEvaluator b.evaluator template isMutable :: statements)
    (ps : List Placeholder) :
    ps.foldl (fun b p => b.bind p.name p.name) b =
      { b with statements :=
          .declareEvaluator b.evaluator template (isMutable || !ps.isEmpty) ::
            (statements ++ binds b.evaluator (ps.map Placeholder.name)) } := by
  have called : ps.foldl (fun b p => b.bind p.name p.name) b =
      b.calls (ps.map fun p => .bind p.name p.name) := by
    rw [calls, List.foldl_map]
    rfl
  have some : (ps.map fun p => BodyStep.bind p.name p.name).any BodyStep.isBinding =
      !ps.isEmpty := by
    cases ps <;> rfl
  rw [called, calls_eq h, some, List.map_map, binds, List.map_map]
  rfl

/-- The body of a template: an evaluator is made, which is mutable if something is bound, names are
bound, the evaluator evaluates, and what is left is discarded. -/
def bodyOf (parameters : List Parameter) (template : String) (names : List String) :
    List Statement :=
  let evaluator := freshName (parameters.map Parameter.name) "evaluator"
  let result := freshName (parameters.map Parameter.name) "result"
  .declareEvaluator evaluator template (!names.isEmpty) :: (binds evaluator names ++
    (.invoke evaluator result :: ((parameters.filter (·.name ∉ names)).map (.discard ·.name) ++
      [.giveBack result])))

theorem evaluation_eq_bodyOf (parameters : List Parameter) (template : String)
    (placeholders : List Placeholder) (outcome : Outcome) :
    evaluation parameters template placeholders outcome =
      bodyOf parameters template
        ((placeholders.filter (·.name ∈ outcome.matched)).map Placeholder.name) := by
  generalize hbound : placeholders.filter (·.name ∈ outcome.matched) = bound
  have folded := foldl_bind (b := (start parameters).declareEvaluator template) rfl bound
  rw [evaluation, hbound, folded]
  simp [bodyOf, invoke, push, returning, discards, declareEvaluator, start,
    filterMap_boundParameter?_binds, Statement.boundParameter?, List.filterMap_cons]

end BodyBuilder

/-- The distinct placeholders of a template that name a parameter, in order of first appearance. -/
def Candidate.boundNames (c : Candidate) (scheme : Enclosure) (template : String) : List String :=
  (Template.distinctNames scheme template).filter (· ∈ c.parameters.map Parameter.name)

theorem matched_names {parameters : List Parameter} {placeholders : List Placeholder} :
    (placeholders.filter
        (·.name ∈ (Outcome.compare parameters placeholders).matched)).map Placeholder.name =
      (placeholders.map Placeholder.name).filter (· ∈ parameters.map Parameter.name) := by
  rw [List.filter_map]
  refine congrArg (List.map _) (List.filter_congr fun p hp => ?_)
  have referenced : p.name ∈ placeholders.map Placeholder.name := List.mem_map_of_mem hp
  simp only [Outcome.compare, List.mem_filter, Text.mem_nameSet, referenced, Function.comp,
    decide_true, and_true]

theorem Candidate.body_build_of_ok {c : Candidate} {scheme : Enclosure} {template : String}
    {found : List Placeholder} (ht : c.template = some template)
    (h : Template.placeholders scheme template = .ok found) (policy : Policy) :
    (c.build scheme policy).member.body =
      BodyBuilder.bodyOf c.parameters template (c.boundNames scheme template) := by
  simp only [build, body, ht, h]
  rw [BodyBuilder.evaluation_eq_bodyOf, matched_names, Template.map_name_placeholders h,
    boundNames]

theorem Candidate.body_build_of_not_ok {c : Candidate} {scheme : Enclosure}
    (h : ∀ template found, c.template = some template →
      Template.placeholders scheme template ≠ .ok found) (policy : Policy) :
    (c.build scheme policy).member.body =
      c.parameters.map (fun p => Statement.discard p.name) ++ [.noExpression] := by
  have all : BodyBuilder.discards c.parameters [] =
      c.parameters.map fun p => Statement.discard p.name := by
    simp [BodyBuilder.discards]
  simp only [build, body, BodyBuilder.noExpression, BodyBuilder.start, all]
  cases ht : c.template with
  | none => rfl
  | some template =>
    cases hp : Template.placeholders scheme template with
    | error e => simp only [hp]
    | ok found => exact absurd hp (h template found ht)

end FormulaBinding
