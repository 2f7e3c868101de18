import FormulaBinding.Proofs.Body.Semantics
import FormulaBinding.Proofs.Body.Shape

/-!
# A body means what its template says

Run over any contract, the body of a candidate has no fault. It gives back what the evaluator makes
of the template after each distinct placeholder that names a parameter was given the parameter's
value; without a usable template it gives back no number. Each parameter is bound once or discarded
once, and the evaluator is mutable exactly if something is bound.
-/

namespace FormulaBinding

open Body BodyBuilder

variable {E V R N : Type}

/-- The evaluator after names were given the values of the parameters of these names, one after the
other. -/
def Body.Contract.bindAll (k : Contract E V R N) (arguments : String → V) (e : E)
    (names : List String) : E :=
  names.foldl (fun e name => k.bind e name (arguments name)) e

def Candidate.meaning (k : Contract E V R N) (scheme : Enclosure) (c : Candidate)
    (arguments : String → V) : N :=
  match c.template with
  | none => k.nan
  | some template =>
    match Template.placeholders scheme template with
    | .error _ => k.nan
    | .ok _ =>
      k.coerce (k.evaluate
        (k.bindAll arguments (k.construct template) (c.boundNames scheme template)))

/-! ## Runs -/

section
variable {k : Contract E V R N} {arguments : String → V} {evaluator : String}

/-- Each parameter that is bound is waiting, and the evaluator takes its value. Nothing else
changes. -/
theorem run_binds {names : List String} (distinct : names.Nodup) (apart : evaluator ∉ names)
    {isMutable : Bool} (hm : names ≠ [] → isMutable = true) {f : Frame E V R} {e : E}
    (he : f evaluator = some (.evaluator e isMutable))
    (waiting : ∀ name ∈ names, f name = some (.parameter (arguments name))) :
    ∃ g : Frame E V R, (∀ ss, run k f (binds evaluator names ++ ss) = run k g ss) ∧
      g evaluator = some (.evaluator (k.bindAll arguments e names) isMutable) ∧
      ∀ other, other ∉ names → other ≠ evaluator → g other = f other := by
  induction names generalizing f e with
  | nil => exact ⟨f, fun _ => rfl, he, fun _ _ _ => rfl⟩
  | cons name names ih =>
    obtain ⟨fresh, distinct⟩ := List.nodup_cons.mp distinct
    obtain ⟨ne, apart⟩ := not_or.mp (List.mem_cons.not.mp apart)
    obtain rfl : isMutable = true := hm (List.cons_ne_nil _ _)
    have bound := exec_bindParameter (k := k) he (waiting name List.mem_cons_self) name
    generalize hg : Function.update (Function.update f name (some .moved)) evaluator
      (some (.evaluator (k.bind e name (arguments name)) true)) = g at bound
    have here : g evaluator = some (.evaluator (k.bind e name (arguments name)) true) := by
      rw [← hg, Function.update_self]
    have kept : ∀ other, other ≠ name → other ≠ evaluator → g other = f other := by
      intro other hname hevaluator
      rw [← hg, Function.update_of_ne hevaluator, Function.update_of_ne hname]
    have later : ∀ n ∈ names, g n = some (.parameter (arguments n)) := by
      intro n hn
      rw [kept n (fun h => fresh (h ▸ hn)) (fun h => apart (h ▸ hn))]
      exact waiting n (List.mem_cons_of_mem _ hn)
    obtain ⟨h, runs, evaluates, rest⟩ := ih distinct apart (fun _ => rfl) here later
    refine ⟨h, ?_, evaluates, ?_⟩
    · intro ss
      rw [binds, List.map_cons, List.cons_append, run_of_ahead bound]
      exact runs ss
    · intro other hother hevaluator
      obtain ⟨hname, hother⟩ := not_or.mp (List.mem_cons.not.mp hother)
      rw [rest other hother hevaluator, kept other hname hevaluator]

theorem start_of_mem (arguments : String → V) {parameters : List Parameter} {name : String}
    (h : name ∈ parameters.map Parameter.name) :
    Frame.start (E := E) (R := R) parameters arguments name =
      some (.parameter (arguments name)) := if_pos h

theorem start_of_notMem (arguments : String → V) {parameters : List Parameter} {name : String}
    (h : name ∉ parameters.map Parameter.name) :
    Frame.start (E := E) (R := R) parameters arguments name = none := if_neg h

/-- After an evaluator was made, all names but its own stand for what they stood for before. -/
theorem run_declareEvaluator {f : Frame E V R} (free : f evaluator = none) (template : String)
    (isMutable : Bool) :
    ∃ g : Frame E V R,
      (∀ ss, run k f (.declareEvaluator evaluator template isMutable :: ss) = run k g ss) ∧
      g evaluator = some (.evaluator (k.construct template) isMutable) ∧
      ∀ name, name ≠ evaluator → g name = f name := by
  refine ⟨_, run_of_ahead (exec_declareEvaluator free template isMutable), ?_, ?_⟩
  · rw [Function.update_self]
  · intro name h
    rw [Function.update_of_ne h]

/-- Where the evaluator has all it needs, the end of a body gives back what it evaluates to. The
parameters that are left have not moved. -/
theorem run_end {f : Frame E V R} {e : E} {isMutable : Bool} {result : String}
    {left : List Parameter} (he : f evaluator = some (.evaluator e isMutable))
    (free : f result = none) (waiting : ∀ p ∈ left, ∃ v, f p.name = some (.parameter v)) :
    run k f (.invoke evaluator result ::
      (left.map (fun p => Statement.discard p.name) ++ [.giveBack result])) =
        .ok (k.coerce (k.evaluate e)) := by
  have evaluated := exec_invoke (k := k) he free
  generalize hg : Function.update f result (some (.result (k.evaluate e))) = g at evaluated
  have back : g result = some (.result (k.evaluate e)) := by
    rw [← hg, Function.update_self]
  have still : ∀ p ∈ left, ∃ v, g p.name = some (.parameter v) := by
    intro p hp
    obtain ⟨v, hv⟩ := waiting p hp
    have ne : p.name ≠ result := by
      intro same
      rw [same, free] at hv
      cases hv
    exact ⟨v, by rw [← hg, Function.update_of_ne ne, hv]⟩
  rw [run_of_ahead evaluated, run_discards still]
  exact run_of_done (exec_giveBack back)

/-- A body that binds parameters has no fault, and comes to the evaluation of its template. -/
theorem run_bodyOf {parameters : List Parameter} {names : List String} (distinct : names.Nodup)
    (declared : ∀ name ∈ names, name ∈ parameters.map Parameter.name) (template : String) :
    run k (Frame.start parameters arguments) (bodyOf parameters template names) =
      .ok (k.coerce (k.evaluate (k.bindAll arguments (k.construct template) names))) := by
  rw [bodyOf]
  generalize hE : freshName (parameters.map Parameter.name) "evaluator" = evaluator
  generalize hR : freshName (parameters.map Parameter.name) "result" = result
  have freshE : evaluator ∉ parameters.map Parameter.name := hE ▸ freshName_notMem _ _
  have freshR : result ∉ parameters.map Parameter.name := hR ▸ freshName_notMem _ _
  have ne : result ≠ evaluator := hE ▸ hR ▸ freshName_ne _
  obtain ⟨f, made, here, kept⟩ := run_declareEvaluator (k := k)
    (start_of_notMem arguments freshE) template (!names.isEmpty)
  have waiting : ∀ name ∈ parameters.map Parameter.name,
      f name = some (.parameter (arguments name)) := by
    intro name hname
    rw [kept name fun h => freshE (h ▸ hname)]
    exact start_of_mem arguments hname
  obtain ⟨g, bound, evaluates, rest⟩ := run_binds (k := k) distinct
    (fun h => freshE (declared evaluator h)) (by cases names <;> simp) here
    fun name h => waiting name (declared name h)
  have free : g result = none := by
    rw [rest result (fun h => freshR (declared result h)) ne, kept result ne]
    exact start_of_notMem arguments freshR
  have left : ∀ p ∈ parameters.filter (·.name ∉ names), ∃ v, g p.name = some (.parameter v) := by
    intro p hp
    obtain ⟨hp, unbound⟩ := List.mem_filter.mp hp
    have hname : p.name ∈ parameters.map Parameter.name := List.mem_map_of_mem hp
    refine ⟨arguments p.name, ?_⟩
    rw [rest p.name (of_decide_eq_true unbound) fun same => freshE (same ▸ hname)]
    exact waiting p.name hname
  rw [made, bound]
  exact run_end evaluates free left

/-- A body without a template has no fault either, and gives back no number. -/
theorem run_noExpression (parameters : List Parameter) :
    run k (Frame.start parameters arguments)
      (parameters.map (fun p => Statement.discard p.name) ++ [.noExpression]) = .ok k.nan := by
  have waiting : ∀ p ∈ parameters, ∃ v,
      Frame.start (E := E) (R := R) parameters arguments p.name = some (.parameter v) :=
    fun p hp => ⟨_, start_of_mem arguments (List.mem_map_of_mem hp)⟩
  rw [run_discards waiting]
  rfl

end

/-! ## Every parameter is used once -/

def Statement.discardedParameter? : Statement → Option String
  | discard parameter => some parameter
  | _ => none

def boundIn (body : List Statement) : List String := body.filterMap Statement.boundParameter?

def discardedIn (body : List Statement) : List String :=
  body.filterMap Statement.discardedParameter?

theorem boundIn_discards (parameters : List Parameter) :
    boundIn (parameters.map fun p => Statement.discard p.name) = [] := by
  rw [boundIn, List.filterMap_map]
  exact List.filterMap_eq_nil_iff.mpr fun _ _ => rfl

theorem discardedIn_discards (parameters : List Parameter) :
    discardedIn (parameters.map fun p => Statement.discard p.name) =
      parameters.map Parameter.name := by
  rw [discardedIn, List.filterMap_map, ← List.filterMap_eq_map]
  rfl

theorem discardedIn_binds (evaluator : String) (names : List String) :
    discardedIn (binds evaluator names) = [] := by
  rw [discardedIn, binds, List.filterMap_map]
  exact List.filterMap_eq_nil_iff.mpr fun _ _ => rfl

theorem boundIn_bodyOf (parameters : List Parameter) (template : String) (names : List String) :
    boundIn (bodyOf parameters template names) = names := by
  have none := boundIn_discards (parameters.filter (·.name ∉ names))
  simp only [boundIn, bodyOf] at none ⊢
  rw [List.filterMap_cons_none rfl, List.filterMap_append, filterMap_boundParameter?_binds,
    List.filterMap_cons_none rfl, List.filterMap_append, none, List.filterMap_cons_none rfl,
    List.filterMap_nil, List.append_nil, List.append_nil]

theorem discardedIn_bodyOf (parameters : List Parameter) (template : String)
    (names : List String) : discardedIn (bodyOf parameters template names) =
      (parameters.filter (·.name ∉ names)).map Parameter.name := by
  have none := discardedIn_binds (freshName (parameters.map Parameter.name) "evaluator") names
  have all := discardedIn_discards (parameters.filter (·.name ∉ names))
  simp only [discardedIn, bodyOf] at none all ⊢
  rw [List.filterMap_cons_none rfl, List.filterMap_append, none, List.filterMap_cons_none rfl,
    List.filterMap_append, all, List.filterMap_cons_none rfl, List.filterMap_nil, List.append_nil,
    List.nil_append]

theorem count_add_count {parameters : List Parameter} {names : List String}
    (hp : (parameters.map Parameter.name).Nodup) (hn : names.Nodup) {p : Parameter}
    (h : p ∈ parameters) :
    names.count p.name +
      ((parameters.filter (·.name ∉ names)).map Parameter.name).count p.name = 1 := by
  by_cases bound : p.name ∈ names
  · have notLeft : p.name ∉ (parameters.filter (·.name ∉ names)).map Parameter.name := by
      intro left
      obtain ⟨q, hq, same⟩ := List.mem_map.mp left
      exact of_decide_eq_true (List.mem_filter.mp hq).2 (same ▸ bound)
    rw [List.count_eq_one_of_mem hn bound, List.count_eq_zero_of_not_mem notLeft]
  · have left : p.name ∈ (parameters.filter (·.name ∉ names)).map Parameter.name :=
      List.mem_map_of_mem (List.mem_filter.mpr ⟨h, decide_eq_true bound⟩)
    have distinct : ((parameters.filter (·.name ∉ names)).map Parameter.name).Nodup :=
      hp.sublist (List.filter_sublist.map Parameter.name)
    rw [List.count_eq_zero_of_not_mem bound, List.count_eq_one_of_mem distinct left]

/-! ## Bodies of candidates -/

/-- What is said of a body: run over any contract it comes to a number, each parameter is bound once
or discarded once, and an evaluator is mutable exactly if something is bound. -/
structure IsBodyOf (parameters : List Parameter) (k : Contract E V R N) (arguments : String → V)
    (number : N) (body : List Statement) : Prop where
  runs : run k (Frame.start parameters arguments) body = .ok number
  covers : ∀ p ∈ parameters, (boundIn body).count p.name + (discardedIn body).count p.name = 1
  isMutable : ∀ evaluator template isMutable,
    .declareEvaluator evaluator template isMutable ∈ body →
      (isMutable = true ↔ boundIn body ≠ [])

theorem declareEvaluator_mem_bodyOf {parameters : List Parameter} {template : String}
    {names : List String} {e t : String} {m : Bool}
    (h : .declareEvaluator e t m ∈ bodyOf parameters template names) : m = !names.isEmpty := by
  simp only [bodyOf, binds, List.mem_cons, List.mem_append, List.mem_map, List.not_mem_nil,
    Statement.declareEvaluator.injEq, reduceCtorEq, and_false, exists_false, or_false] at h
  exact h.2.2

theorem isBodyOf_bodyOf {k : Contract E V R N} {arguments : String → V}
    {parameters : List Parameter} (hp : (parameters.map Parameter.name).Nodup)
    {names : List String} (hn : names.Nodup)
    (declared : ∀ name ∈ names, name ∈ parameters.map Parameter.name) (template : String) :
    IsBodyOf parameters k arguments
      (k.coerce (k.evaluate (k.bindAll arguments (k.construct template) names)))
      (bodyOf parameters template names) where
  runs := run_bodyOf hn declared template
  covers p h := by
    rw [boundIn_bodyOf, discardedIn_bodyOf]
    exact count_add_count hp hn h
  isMutable e t m h := by
    rw [declareEvaluator_mem_bodyOf h, boundIn_bodyOf]
    cases names <;> simp

theorem isBodyOf_noExpression {k : Contract E V R N} {arguments : String → V}
    {parameters : List Parameter} (hp : (parameters.map Parameter.name).Nodup) :
    IsBodyOf parameters k arguments k.nan
      (parameters.map (fun p => Statement.discard p.name) ++ [.noExpression]) where
  runs := run_noExpression parameters
  covers p h := by
    have none := boundIn_discards parameters
    have all := discardedIn_discards parameters
    simp only [boundIn, discardedIn] at none all ⊢
    rw [List.filterMap_append, List.filterMap_append, none, all, List.filterMap_cons_none rfl,
      List.filterMap_cons_none rfl, List.filterMap_nil, List.append_nil, List.filterMap_nil,
      List.append_nil, List.count_nil, List.count_eq_one_of_mem hp (List.mem_map_of_mem h)]
  isMutable e t m h := by simp at h

/-- The body of a candidate means what its template says. -/
theorem Candidate.body_means (k : Contract E V R N) (scheme : Enclosure) (policy : Policy)
    (c : Candidate) (distinct : (c.parameters.map Parameter.name).Nodup) (arguments : String → V) :
    IsBodyOf c.parameters k arguments (c.meaning k scheme arguments)
      (c.build scheme policy).member.body := by
  cases ht : c.template with
  | none =>
    have number : c.meaning k scheme arguments = k.nan := by rw [meaning, ht]
    rw [number, body_build_of_not_ok (fun t found h => by rw [ht] at h; cases h)]
    exact isBodyOf_noExpression distinct
  | some template =>
    cases hp : Template.placeholders scheme template with
    | error e =>
      have number : c.meaning k scheme arguments = k.nan := by simp only [meaning, ht, hp]
      have refused : ∀ t found, c.template = some t →
          Template.placeholders scheme t ≠ .ok found := by
        intro t found h
        obtain rfl : template = t := Option.some.inj (ht.symm.trans h)
        rw [hp]
        nofun
      rw [number, body_build_of_not_ok refused]
      exact isBodyOf_noExpression distinct
    | ok found =>
      have number : c.meaning k scheme arguments = k.coerce (k.evaluate
          (k.bindAll arguments (k.construct template) (c.boundNames scheme template))) := by
        simp only [meaning, ht, hp]
      rw [number, body_build_of_ok ht hp]
      refine isBodyOf_bodyOf distinct ?_ ?_ template
      · exact (Template.nodup_distinctNames scheme template).filter _
      · intro name h
        exact of_decide_eq_true (List.mem_filter.mp h).2

/-- The contract that keeps what it is told: a number is a template with what was bound to it. -/
def recorder : Contract (String × List (String × ℕ)) ℕ (String × List (String × ℕ))
    (Option (String × List (String × ℕ))) where
  construct template := (template, [])
  bind e name value := (e.1, e.2 ++ [(name, value)])
  evaluate e := e
  coerce e := some e
  nan := none

/-- Parameters have the names of locals, a placeholder appears twice, and one names no parameter. -/
theorem Candidate.body_means_of_taken_locals :
    let c : Candidate :=
      { container := "Shape", scope := "crate", name := "area", receiver := none,
        parameters := [⟨"evaluator", "f64"⟩, ⟨"result", "f64"⟩, ⟨"evaluator_", "f64"⟩],
        template := some "[evaluator_]*[x]+[evaluator]-[evaluator_]", fixedShape := true }
    (c.parameters.map Parameter.name).Nodup ∧
      IsBodyOf c.parameters recorder String.length
        (some ("[evaluator_]*[x]+[evaluator]-[evaluator_]",
          [("evaluator_", 10), ("evaluator", 9)]))
        (c.build .square .strict).member.body := by
  intro c
  have distinct : (c.parameters.map Parameter.name).Nodup := by decide
  have number : c.meaning recorder .square String.length =
      some ("[evaluator_]*[x]+[evaluator]-[evaluator_]",
        [("evaluator_", 10), ("evaluator", 9)]) := by decide +kernel
  exact ⟨distinct, number ▸ Candidate.body_means recorder .square .strict c distinct String.length⟩

end FormulaBinding
