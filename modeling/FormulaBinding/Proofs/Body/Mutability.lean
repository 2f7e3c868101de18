import FormulaBinding.Member.Body
import Mathlib.Data.List.Basic

/-!
# Which evaluators are mutable

A body is built by calls that declare an evaluator, bind a placeholder, or evaluate, in any order.
An evaluator has to be mutable exactly if something is bound to it, that is, before the next one is
declared. Only the evaluator that is declared first ever becomes mutable, so this is so exactly if
nothing is bound behind a further declaration.
-/

namespace FormulaBinding

/-! ## Statements -/

namespace Statement

def isDeclaration : Statement → Bool
  | declareEvaluator _ _ _ => true
  | _ => false

def isBinding : Statement → Bool
  | bindParameter _ _ _ => true
  | _ => false

/-- A statement that declares no mutable evaluator. -/
def IsImmutable : Statement → Prop
  | declareEvaluator _ _ isMutable => isMutable = false
  | _ => True

/-- Whether something is bound before the next declaration. -/
def bindsAhead (ss : List Statement) : Bool :=
  (ss.takeWhile (!isDeclaration ·)).any isBinding

/-- An evaluator is mutable exactly if something is bound before the next one is declared. -/
def KeepsMutability (body : List Statement) : Prop :=
  ∀ before evaluator template isMutable after,
    body = before ++ .declareEvaluator evaluator template isMutable :: after →
      (isMutable = true ↔ bindsAhead after)

def BindsNothingFurther (ss : List Statement) : Prop :=
  ss.Pairwise fun s s' => s.isDeclaration → s'.isBinding = false

theorem bindsAhead_cons_of_isDeclaration {s : Statement} (h : s.isDeclaration)
    (ss : List Statement) : bindsAhead (s :: ss) = false := by
  simp [bindsAhead, h]

theorem bindsAhead_cons_of_not_isDeclaration {s : Statement} (h : s.isDeclaration = false)
    (ss : List Statement) : bindsAhead (s :: ss) = (s.isBinding || bindsAhead ss) := by
  simp [bindsAhead, h]

/-- Where nothing is bound behind a declaration, all that is bound is bound before the next one. -/
theorem BindsNothingFurther.bindsAhead {ss : List Statement} (h : BindsNothingFurther ss) :
    bindsAhead ss = ss.any isBinding := by
  induction ss with
  | nil => rfl
  | cons s ss ih =>
    obtain ⟨behind, rest⟩ := List.pairwise_cons.mp h
    cases hs : s.isDeclaration with
    | false => rw [bindsAhead_cons_of_not_isDeclaration hs, ih rest, List.any_cons]
    | true =>
      have binds : s.isBinding = false := by
        cases s <;> first | rfl | cases hs
      have none : ss.any isBinding = false :=
        List.any_eq_false.mpr fun s' mem => Bool.not_eq_true _ ▸ behind s' mem hs
      rw [bindsAhead_cons_of_isDeclaration hs, List.any_cons, binds, none]
      rfl

theorem bindsNothingFurther_append_iff {ss ending : List Statement}
    (plain : ∀ s ∈ ending, s.isBinding = false) :
    BindsNothingFurther (ss ++ ending) ↔ BindsNothingFurther ss := by
  have inside : BindsNothingFurther ending :=
    List.pairwise_of_forall_mem_list fun _ _ s mem _ => plain s mem
  have across : ∀ s ∈ ss, ∀ s' ∈ ending, s.isDeclaration → s'.isBinding = false :=
    fun _ _ s' mem _ => plain s' mem
  rw [BindsNothingFurther, List.pairwise_append]
  exact and_iff_left ⟨inside, across⟩

theorem keepsMutability_cons_of_not_isDeclaration {s : Statement} (h : s.isDeclaration = false)
    {ss : List Statement} : KeepsMutability (s :: ss) ↔ KeepsMutability ss := by
  constructor
  · rintro keeps before evaluator template isMutable after rfl
    exact keeps (s :: before) evaluator template isMutable after rfl
  · intro keeps before evaluator template isMutable after split
    obtain ⟨-, same⟩ | ⟨before, rfl, behind⟩ := List.cons_eq_append_iff.mp split
    · obtain ⟨rfl, -⟩ := List.cons.inj same
      cases h
    · exact keeps before evaluator template isMutable after behind

theorem keepsMutability_cons {evaluator template : String} {isMutable : Bool}
    {ss : List Statement} :
    KeepsMutability (.declareEvaluator evaluator template isMutable :: ss) ↔
      (isMutable = true ↔ bindsAhead ss) ∧ KeepsMutability ss := by
  constructor
  · intro keeps
    refine ⟨keeps [] evaluator template isMutable ss rfl, ?_⟩
    rintro before evaluator' template' isMutable' after rfl
    exact keeps (_ :: before) evaluator' template' isMutable' after rfl
  · rintro ⟨here, keeps⟩ before evaluator' template' isMutable' after split
    obtain ⟨-, same⟩ | ⟨before, rfl, behind⟩ := List.cons_eq_append_iff.mp split
    · cases same
      exact here
    · exact keeps before evaluator' template' isMutable' after behind

/-- Evaluators none of which is mutable are all right exactly if nothing is bound behind them. -/
theorem keepsMutability_iff_of_isImmutable {ss : List Statement} (h : ∀ s ∈ ss, s.IsImmutable) :
    KeepsMutability ss ↔ BindsNothingFurther ss := by
  induction ss with
  | nil =>
    have none : KeepsMutability [] := fun before _ _ _ _ split =>
      absurd split.symm (List.append_ne_nil_of_right_ne_nil before (List.cons_ne_nil _ _))
    exact iff_of_true none List.Pairwise.nil
  | cons s ss ih =>
    obtain ⟨here, rest⟩ := List.forall_mem_cons.mp h
    cases hs : s.isDeclaration with
    | false =>
      rw [keepsMutability_cons_of_not_isDeclaration hs, ih rest, BindsNothingFurther,
        BindsNothingFurther, List.pairwise_cons]
      exact (and_iff_right fun _ _ (declares : s.isDeclaration) =>
        absurd (hs.symm.trans declares) (by decide)).symm
    | true =>
      obtain ⟨evaluator, template, isMutable⟩ := s <;> cases hs
      obtain rfl : isMutable = false := here
      have split : BindsNothingFurther (.declareEvaluator evaluator template false :: ss) ↔
          (∀ s ∈ ss, s.isBinding = false) ∧ BindsNothingFurther ss := by
        simp [BindsNothingFurther, isDeclaration]
      rw [keepsMutability_cons, ih rest, split]
      refine and_congr_left fun further => ?_
      rw [further.bindsAhead]
      simp

end Statement

/-! ## Calls -/

/-- A call while a body is built. -/
inductive BodyStep where
  | declare (template : String)
  | bind (placeholder parameter : String)
  | invoke
  deriving DecidableEq, Repr

namespace BodyStep

def isDeclaration : BodyStep → Bool
  | declare _ => true
  | _ => false

def isBinding : BodyStep → Bool
  | bind _ _ => true
  | _ => false

/-- An evaluator is declared before anything is bound and before anything is evaluated. -/
def DeclaresFirst (steps : List BodyStep) : Prop :=
  ∃ before template after, steps = before ++ .declare template :: after ∧
    ∀ step ∈ before, step.isBinding = false ∧ step ≠ .invoke

/-- Nothing is bound behind a declaration other than the first call. -/
def BindsToFirst (steps : List BodyStep) : Prop :=
  steps.tail.Pairwise fun s s' => s.isDeclaration → s'.isBinding = false

instance (steps : List BodyStep) : Decidable (BindsToFirst steps) :=
  inferInstanceAs (Decidable (List.Pairwise _ _))

/-- The statement that a call adds; what it declares is not mutable yet. -/
def statement (evaluator result : String) : BodyStep → Statement
  | declare template => .declareEvaluator evaluator template false
  | bind placeholder parameter => .bindParameter evaluator placeholder parameter
  | invoke => .invoke evaluator result

variable (evaluator result : String) (step : BodyStep)

@[simp]
theorem isDeclaration_statement :
    (step.statement evaluator result).isDeclaration = step.isDeclaration := by
  cases step <;> rfl

@[simp]
theorem isBinding_statement : (step.statement evaluator result).isBinding = step.isBinding := by
  cases step <;> rfl

theorem isImmutable_statement : (step.statement evaluator result).IsImmutable := by
  cases step <;> trivial

/-- There is nothing that the first declaration could come behind. -/
theorem declaresFirst_iff {steps : List BodyStep} :
    DeclaresFirst steps ↔ ∃ template after, steps = .declare template :: after := by
  constructor
  · rintro ⟨before, template, after, rfl, early⟩
    match before with
    | [] => exact ⟨template, after, rfl⟩
    | .declare first :: before => exact ⟨first, _, rfl⟩
    | .bind _ _ :: _ => exact absurd (early _ List.mem_cons_self).1.symm Bool.false_ne_true
    | .invoke :: _ => exact absurd rfl (early _ List.mem_cons_self).2
  · rintro ⟨template, after, rfl⟩
    exact ⟨[], template, after, rfl, fun _ mem => absurd mem List.not_mem_nil⟩

end BodyStep

namespace BodyBuilder

open Statement BodyStep

def call (b : BodyBuilder) : BodyStep → BodyBuilder
  | .declare template => b.declareEvaluator template
  | .bind placeholder parameter => b.bind placeholder parameter
  | .invoke => b.invoke

def calls (b : BodyBuilder) (steps : List BodyStep) : BodyBuilder := steps.foldl call b

/-- A call behind a first declaration adds its statement; if it binds, the first evaluator is
mutable from then on. -/
theorem call_eq {b : BodyBuilder} {evaluator template : String} {isMutable : Bool}
    {ss : List Statement} (h : b.statements = .declareEvaluator evaluator template isMutable :: ss)
    (step : BodyStep) :
    b.call step =
      { b with statements := .declareEvaluator evaluator template (isMutable || step.isBinding) ::
          (ss ++ [step.statement b.evaluator b.result]) } := by
  cases step with
  | declare template' => simp [call, declareEvaluator, push, h, BodyStep.isBinding, statement]
  | bind placeholder parameter =>
    simp [call, BodyBuilder.bind, push, markMutable, h, BodyStep.isBinding, statement]
  | invoke => simp [call, BodyBuilder.invoke, push, h, BodyStep.isBinding, statement]

/-- After calls behind a first declaration, the first evaluator is mutable if any of them binds, and
no other one is. -/
theorem calls_eq {b : BodyBuilder} {evaluator template : String} {isMutable : Bool}
    {ss : List Statement} (h : b.statements = .declareEvaluator evaluator template isMutable :: ss)
    (steps : List BodyStep) :
    b.calls steps =
      { b with statements :=
          .declareEvaluator evaluator template (isMutable || steps.any BodyStep.isBinding) ::
            (ss ++ steps.map (statement b.evaluator b.result)) } := by
  induction steps generalizing b isMutable ss with
  | nil => simp [calls, ← h]
  | cons step steps ih =>
    have once := call_eq h step
    have rest := ih (congrArg statements once)
    rw [calls, List.foldl_cons, ← calls, rest, once]
    simp [Bool.or_assoc]

/-- What a body ends with: it declares nothing and binds nothing. -/
theorem ending_plain {parameters : List Parameter} {ss : List Statement} {result : String}
    {s : Statement} (mem : s ∈ discards parameters ss ++ [.giveBack result]) :
    s.isDeclaration = false ∧ s.isBinding = false ∧ s.IsImmutable := by
  obtain discarded | last := List.mem_append.mp mem
  · obtain ⟨p, -, rfl⟩ := List.mem_map.mp discarded
    exact ⟨rfl, rfl, trivial⟩
  · obtain rfl := List.mem_singleton.mp last
    exact ⟨rfl, rfl, trivial⟩

/-- A body that begins with a declaration: behind it come the statements of the further calls and
an ending that declares and binds nothing. -/
theorem returning_calls (parameters : List Parameter) (template : String)
    (steps : List BodyStep) :
    ∃ evaluator result ending,
      ((start parameters).calls (.declare template :: steps)).returning =
        .declareEvaluator evaluator template (steps.any BodyStep.isBinding) ::
          (steps.map (statement evaluator result) ++ ending) ∧
      ∀ s ∈ ending, s.isDeclaration = false ∧ s.isBinding = false ∧ s.IsImmutable := by
  let b := (start parameters).declareEvaluator template
  have built := calls_eq (b := b) rfl steps
  refine ⟨b.evaluator, b.result,
    discards (b.calls steps).parameters (b.calls steps).statements ++ [.giveBack b.result], ?_,
    fun s mem => ending_plain mem⟩
  have begun : (start parameters).calls (.declare template :: steps) = b.calls steps := rfl
  rw [begun, returning, List.append_assoc, built]
  rfl

/-- An evaluator is mutable exactly if it is declared first and something is bound at all, to
whichever evaluator. So mutability is right exactly if nothing is bound behind a further
declaration. -/
theorem keepsMutability_returning_iff (parameters : List Parameter) {steps : List BodyStep}
    (first : DeclaresFirst steps) :
    (∀ before evaluator template isMutable after,
      ((start parameters).calls steps).returning =
          before ++ .declareEvaluator evaluator template isMutable :: after →
        (isMutable = true ↔ before = [] ∧ ∃ step ∈ steps, step.isBinding)) ∧
    (KeepsMutability ((start parameters).calls steps).returning ↔ BindsToFirst steps) := by
  obtain ⟨template, further, rfl⟩ := declaresFirst_iff.mp first
  obtain ⟨evaluator, result, ending, body, plain⟩ := returning_calls parameters template further
  have immutable : ∀ s ∈ further.map (statement evaluator result) ++ ending, s.IsImmutable := by
    intro s mem
    obtain called | last := List.mem_append.mp mem
    · obtain ⟨step, -, rfl⟩ := List.mem_map.mp called
      exact isImmutable_statement evaluator result step
    · exact (plain s last).2.2
  rw [body]
  constructor
  · intro before evaluator' template' isMutable after split
    obtain ⟨rfl, same⟩ | ⟨before, rfl, behind⟩ := List.cons_eq_append_iff.mp split
    · cases same
      simp [BodyStep.isBinding]
    · have mem : .declareEvaluator evaluator' template' isMutable ∈
          further.map (statement evaluator result) ++ ending := by
        rw [behind]
        exact List.mem_append_cons_self
      have other : isMutable = false := immutable _ mem
      simp [other]
  · have behind : BindsNothingFurther (further.map (statement evaluator result) ++ ending) ↔
        BindsToFirst (.declare template :: further) := by
      rw [bindsNothingFurther_append_iff fun s mem => (plain s mem).2.1, BindsNothingFurther,
        List.pairwise_map]
      simp [BindsToFirst]
    have bound : (further.map (statement evaluator result) ++ ending).any Statement.isBinding =
        further.any BodyStep.isBinding := by
      have last : ending.any Statement.isBinding = false :=
        List.any_eq_false.mpr fun s mem => by simp [(plain s mem).2.1]
      simp [last, Function.comp_def]
    rw [keepsMutability_cons, keepsMutability_iff_of_isImmutable immutable, ← behind,
      and_iff_right_iff_imp]
    intro nothing
    rw [nothing.bindsAhead, bound]

/-- A second evaluator that is only evaluated is all right. One that is bound is not: the first
evaluator becomes mutable for nothing, and the second one stays immutable. -/
theorem keepsMutability_returning_iff_of_secondEvaluator :
    KeepsMutability ((start [⟨"a", "f64"⟩]).calls
      [.declare "[a]", .bind "a" "a", .invoke, .declare "1", .invoke]).returning ∧
    ((start []).calls [.declare "x", .declare "y", .bind "a" "a"]).returning =
      [.declareEvaluator "evaluator" "x" true, .declareEvaluator "evaluator" "y" false,
        .bindParameter "evaluator" "a" "a", .giveBack "result"] ∧
    ¬KeepsMutability ((start []).calls [.declare "x", .declare "y", .bind "a" "a"]).returning := by
  have begins (template : String) (steps : List BodyStep) :
      DeclaresFirst (.declare template :: steps) := declaresFirst_iff.mpr ⟨template, steps, rfl⟩
  refine ⟨?_, by decide, ?_⟩
  · exact (keepsMutability_returning_iff _ (begins _ _)).2.mpr (by decide)
  · exact (keepsMutability_returning_iff [] (begins _ _)).2.not.mpr (by decide)

end BodyBuilder
end FormulaBinding
