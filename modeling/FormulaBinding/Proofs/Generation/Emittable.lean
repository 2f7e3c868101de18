import FormulaBinding.Proofs.Generation.Conservation
import FormulaBinding.Proofs.Unit.Failure

/-!
# What can be emitted of a source text

The methods of a source text all become members of their units, whatever plain types they have and
whatever they are called, unless the name of a trait is no plain identifier or a parameter is called
`self`.
-/

namespace FormulaBinding

/-- Whether the trait of a candidate has a plain name, and no parameter is called `self`. -/
structure Candidate.IsWritable (c : Candidate) : Prop where
  container : Identifier.isPlain c.container = true
  names : ∀ x ∈ c.parameters, x.name ≠ "self"

/-- A configuration that refers to the paths that it refers to by default, and appends what it
appends by default. -/
structure Configuration.HasDefaults (c : Configuration) : Prop where
  evaluator : c.evaluator = "Evaluator"
  runtime : c.runtime = "::exprbind::runtime"
  suffix : c.suffix = "Expressions"

namespace Generator

variable {g : Generator} {text : String} {ds : List Declaration}

/-- Whether nothing is reported about what cannot be written. -/
def EmitsAll (g : Generator) (ds : List Declaration) : Prop :=
  ∀ d ∈ (g.generate ds).diagnostics, d.concern ≠ .emission

/-! ## Candidates of a text -/

theorem exists_declaration {c : Candidate} (mem : c ∈ g.candidates ds) :
    ∃ d ∈ ds, d.modifiers.foreign = false ∧ c = d.candidate g.configuration.marker := by
  obtain ⟨d, kept, rfl⟩ := List.mem_map.mp mem
  obtain ⟨inside, eligible⟩ := List.mem_filter.mp kept
  refine ⟨d, inside, ?_, rfl⟩
  cases foreign : d.modifiers.foreign with
  | false => rfl
  | true =>
    rw [Declaration.rejection?, foreign, if_pos rfl] at eligible
    split_ifs at eligible <;> cases eligible

/-- A member of a text can be written if and only if its parameters can. -/
theorem writes_iff {d : Declaration} (named : d.IsNamed "crate") :
    g.writes (d.candidate g.configuration.marker) = true ↔
      ∀ p ∈ d.parameters, p.name ≠ "self" ∧ (Grammar.readType p.type).isOk = true := by
  have same : g.writes (d.candidate g.configuration.marker) =
      (g.context.member (g.memberOf (d.candidate g.configuration.marker))).isOk := by
    rw [writes, RenderContext.canWrite]
    cases g.context.member (g.memberOf (d.candidate g.configuration.marker)) <;> rfl
  have each : ∀ p ∈ d.parameters,
      (RenderContext.parameter (g.memberOf (d.candidate g.configuration.marker)) p).isOk = true ↔
        p.name ≠ "self" ∧ (Grammar.readType p.type).isOk = true := fun p mem => by
    rw [RenderContext.isOk_parameter_iff, Identifier.isOk_written_iff (named.parameters p mem)]
  rw [same, RenderContext.isOk_member_iff]
  constructor
  · rintro ⟨-, parameters, -⟩ p mem
    exact (each p mem).mp (parameters p mem)
  · intro all
    refine ⟨?_, fun p mem => (each p mem).mpr (all p mem), ?_⟩
    · obtain ⟨w, name, stored⟩ := named.name
      obtain ⟨v, written, -⟩ := Identifier.exists_written_stored name
      have same : (g.memberOf (d.candidate g.configuration.marker)).name = Identifier.stored w :=
        stored
      exact isOk_iff.mpr ⟨v, same ▸ written⟩
    · have names : ∀ p ∈ d.parameters, (Identifier.written p.name).isOk = true := fun p mem =>
        (Identifier.isOk_written_iff (named.parameters p mem)).mpr (all p mem).1
      exact fun s mem => RenderContext.isOk_statement_of_mem_build _ names mem

/-! ## Units of a text -/

/-- A unit is assembled if and only if its trait has a plain name. -/
theorem isOk_assemble_iff (suffix : g.context.suffix = "Expressions") {d : Declaration}
    (named : d.IsNamed "crate") (ms : List Member) :
    (g.context.assemble (d.candidate g.configuration.marker).key ms).isOk = true ↔
      Identifier.isPlain d.container = true := by
  obtain ⟨modules, names, path⟩ := named.scope
  have trait : (RenderContext.traitPath (d.candidate g.configuration.marker).key).isOk = true ↔
      Identifier.isPlain d.container = true :=
    RenderContext.isOk_traitPath_iff names path named.container
  rw [← trait, RenderContext.assemble, isOk_iff]
  constructor
  · rintro ⟨tokens, h⟩
    obtain ⟨path, ok, -⟩ := bind_eq_ok.mp h
    exact isOk_iff.mpr ⟨path, ok⟩
  · intro ok
    have plain := Identifier.isPlainWord_of_isPlain (trait.mp ok)
    obtain ⟨path, ok⟩ := isOk_iff.mp ok
    exact ⟨_, bind_eq_ok.mpr ⟨path, ok,
      bind_eq_ok.mpr ⟨_, RenderContext.unitName_eq suffix plain, rfl⟩⟩⟩

theorem complaints_concern {cs : List Candidate} {d : Diagnostic}
    (mem : d ∈ cs.filterMap g.complaint?) : d.concern ≠ .emission := by
  obtain ⟨c, -, found⟩ := List.mem_filterMap.mp mem
  exact Candidate.complaint?_concern found

/-- Nothing is reported about the writing of a group if and only if its unit can be made and all its
members can be written. -/
theorem render_emits_iff (g : Generator) (k : UnitKey) (cs : List Candidate) :
    (∀ d ∈ (g.render k cs).diagnostics, d.concern ≠ .emission) ↔
      (∀ c ∈ cs, g.writes c = true) ∧
        (SourceUnit.emit g.context k (cs.map g.memberOf)
          (fingerprint g.configuration cs)).isOk = true := by
  rw [render_eq]
  cases emitted : SourceUnit.emit g.context k (cs.map g.memberOf)
      (fingerprint g.configuration cs) with
  | error e =>
    refine iff_of_false (fun none => ?_) (fun all => ?_)
    · exact none (Diagnostic.emission k e) (List.mem_append_right _ (List.mem_singleton.mpr rfl)) rfl
    · cases all.2
  | ok entry =>
    obtain ⟨unit, reported⟩ := entry
    obtain ⟨-, -, -, skips⟩ := SourceUnit.emit_eq_ok emitted
    have each := SourceUnit.forall₂_renderAll g.context (cs.map g.memberOf)
    have nothing : ((cs.map g.memberOf).filter fun m => !g.context.canWrite m) = [] ↔
        ∀ c ∈ cs, g.writes c = true := by
      simp [List.filter_eq_nil_iff, writes]
    rw [← show reported = _ from skips] at each
    rw [← nothing, and_iff_left (by rfl)]
    constructor
    · intro none
      generalize ((cs.map g.memberOf).filter fun m => !g.context.canWrite m) = left at each ⊢
      cases each with
      | nil => rfl
      | @cons m d _ _ skip _ =>
        obtain ⟨e, -, rfl⟩ := skip
        exact (none (Diagnostic.memberEmission m e)
          (List.mem_append_right _ List.mem_cons_self) rfl).elim
    · intro none d mem
      rw [none, List.forall₂_nil_left_iff] at each
      rcases List.mem_append.mp mem with complaint | skip
      · exact complaints_concern complaint
      · rw [each] at skip
        cases skip

/-- The unit of a candidate's key, or why there is none. -/
def emitted (g : Generator) (ds : List Declaration) (k : UnitKey) :
    Except EmissionError UnitEntry :=
  SourceUnit.emit g.context k ((Candidate.ofKey k (g.candidates ds)).map g.memberOf)
    (fingerprint g.configuration (Candidate.ofKey k (g.candidates ds)))

theorem emitsAll_iff (g : Generator) (ds : List Declaration) :
    g.EmitsAll ds ↔ ∀ c ∈ g.candidates ds,
      g.writes c = true ∧ (g.emitted ds c.key).isOk = true := by
  by_cases some : (g.candidates ds).isEmpty = true
  · have none := List.isEmpty_iff.mp some
    refine iff_of_true (fun d mem => ?_) (by rw [none]; exact List.forall_mem_nil _)
    rw [generate, if_pos some] at mem
    rw [List.mem_singleton.mp mem]
    intro same
    cases same
  · have output : g.generate ds = outputOf ((Candidate.groups (g.candidates ds)).map
        fun group => g.render group.1 group.2) := if_neg some
    rw [EmitsAll, output, outputOf_groups]
    have each (k : UnitKey) := g.render_emits_iff k (Candidate.ofKey k (g.candidates ds))
    constructor
    · intro none c mem
      have key := (Candidate.mem_keysOf_groups (g.candidates ds) c.key).mpr ⟨c, mem, rfl⟩
      obtain ⟨write, unit⟩ := (each c.key).mp fun d reported =>
        none d (List.mem_flatMap.mpr ⟨c.key, key, reported⟩)
      exact ⟨write c (List.mem_filter.mpr ⟨mem, decide_eq_true rfl⟩), unit⟩
    · intro all d mem
      obtain ⟨k, key, reported⟩ := List.mem_flatMap.mp mem
      obtain ⟨c, inside, rfl⟩ := (Candidate.mem_keysOf_groups (g.candidates ds) k).mp key
      exact (each c.key).mpr ⟨fun c' mem' => (all c' (List.mem_filter.mp mem').1).1,
        (all c inside).2⟩ d reported

/-- Where all can be emitted, the unit of a candidate's key has the members of all its
candidates. -/
theorem EmitsAll.exists_unit (emits : g.EmitsAll ds) {c : Candidate} (mem : c ∈ g.candidates ds) :
    ∃ u ∈ (g.generate ds).units, u.key = c.key ∧
      u.members = (Candidate.ofKey c.key (g.candidates ds)).map g.memberOf := by
  have some : ¬ (g.candidates ds).isEmpty = true := by
    rw [List.isEmpty_iff]
    exact List.ne_nil_of_mem mem
  obtain ⟨keys, reports, -, own, diagnostics, each⟩ := (conserves_of_candidates some).groups
  have write := (emitsAll_iff g ds).mp emits
  have key : c.key ∈ keys := (own c.key).mpr ⟨c, mem, rfl⟩
  rcases each c.key key with ⟨u, unit, has⟩ | ⟨-, e, has⟩
  · have stands : u ∈ (g.generate ds).units.filter (·.key = c.key) := by
      rw [unit]
      exact List.mem_singleton.mpr rfl
    refine ⟨u, (List.mem_filter.mp stands).1, has.key, ?_⟩
    rw [has.members, List.filter_eq_self.mpr]
    exact fun c' mem' => (write c' (List.mem_filter.mp mem').1).1
  · have reported : Diagnostic.emission c.key e ∈ (g.generate ds).diagnostics := by
      rw [diagnostics, List.mem_flatMap]
      refine ⟨c.key, key, ?_⟩
      rw [has.reports]
      exact List.mem_append_right _ (List.mem_singleton.mpr rfl)
    exact absurd rfl (emits _ reported)

/-! ## Everything is emitted -/

/-- The default paths are paths where generated code refers to them. -/
theorem hasPaths_of_hasDefaults {g : AcceptedGenerator} (h : g.1.configuration.HasDefaults) :
    g.1.context.HasPaths := by
  have default : AcceptedGenerator.default.1.context.HasPaths := by decide +kernel
  have same := AcceptedGenerator.configuration_ofConfiguration {} isSome_make_default
  obtain ⟨evaluator, runtime⟩ := g.paths_context
  obtain ⟨evaluator', runtime'⟩ := AcceptedGenerator.default.paths_context
  rw [AcceptedGenerator.default, same] at evaluator' runtime'
  rw [Configuration.evaluatorPath, h.evaluator] at evaluator
  rw [Configuration.runtimePath, h.runtime] at runtime
  exact ⟨Except.ok.inj (evaluator'.symm.trans evaluator) ▸ default.evaluator,
    Except.ok.inj (runtime'.symm.trans runtime) ▸ default.runtime⟩

/-- Keywords as names of a module, a method and a parameter, and types with arguments. -/
def rawNames (trait : String) : String :=
  "mod r#mod \x7b use exprbind::expression; pub trait " ++ trait ++ " \x7b #[expression(\"[x]\")] " ++
    "fn r#fn(&mut self, x: Vec<[f64; 2]>, r#type: &'static dyn Fn(f64) -> f64) -> f64; \x7d \x7d"

def rawParameters : List Parameter :=
  [⟨"x", "Vec < [f64 ; 2] >"⟩, ⟨"type", "& 'static dyn Fn (f64) -> f64"⟩]

theorem isPlain_rawParameters : ∀ x ∈ rawParameters, x.IsPlain := by
  have number {plus : Bool} : Grammar.IsPlain (.type plus) (Token.ident "f64") :=
    .name (by decide +kernel)
  have two : Lexer.IsNumber "2" := by decide +kernel
  have array : Grammar.IsPlain (.type true) _ := .array number two
  have segment := Grammar.IsPlain.generic (w := "Vec") (.inr (by decide)) (by decide)
    (.arguments (.argument array) nofun)
  have vector : Grammar.IsPlain (.type true) _ :=
    .pathType (.path (T := []) (.inl (by decide)) segment .noSegments)
  have function := Grammar.IsPlain.functionTo (w := "Fn") (by decide) (.element number) number
  have object : Grammar.IsPlain (.type true) _ := .reference (some "'static") (by decide) false
    (.dynamic (.bounds (.bound function)))
  simp only [rawParameters, List.forall_mem_cons]
  exact ⟨⟨_, vector, by decide⟩, ⟨_, object, by decide⟩, List.forall_mem_nil _⟩

end Generator

end FormulaBinding
