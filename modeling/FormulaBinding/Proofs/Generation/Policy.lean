import FormulaBinding.Proofs.Generation.Conservation

/-!
# Policies change severities only

Two passes over the same declarations that differ in nothing but the policy make the same units, but
for the fingerprints, and report the same things. Under the strict policy a mismatch of parameters
and placeholders is an error, and a warning under the lenient one.
-/

namespace FormulaBinding

def Configuration.withPolicy (c : Configuration) (p : Policy) : Configuration :=
  { c with policy := p }

def Generator.withPolicy (g : Generator) (p : Policy) : Generator :=
  { g with configuration := g.configuration.withPolicy p }

/-- Whether two units agree in everything but the fingerprint. -/
structure SourceUnit.IsTwin (u v : SourceUnit) : Prop where
  key : v.key = u.key
  fileName : v.fileName = u.fileName
  members : v.members = u.members
  source : v.source = u.source

/-- Whether a diagnostic is another one whose severity is raised where it is about a mismatch. -/
structure Diagnostic.IsRaised (d e : Diagnostic) : Prop where
  concern : e.concern = d.concern
  message : e.message = d.message
  related : e.related = d.related
  mismatch : d.concern = .mismatch → d.severity = .warning ∧ e.severity = .error
  other : d.concern ≠ .mismatch → e.severity = d.severity

theorem Diagnostic.isRaised_self {d : Diagnostic} (h : d.concern ≠ .mismatch) : d.IsRaised d :=
  ⟨rfl, rfl, rfl, fun same => absurd same h, fun _ => rfl⟩

/-- What a pass under the strict policy makes of what it makes under the lenient one. -/
structure Output.IsRaised (lenient strict : Output) : Prop where
  /-- The units are the same, one by one, but for their fingerprints. -/
  units : List.Forall₂ SourceUnit.IsTwin lenient.units strict.units
  /-- The diagnostics are the same, one by one, but for the severity of mismatches. -/
  diagnostics : List.Forall₂ Diagnostic.IsRaised lenient.diagnostics strict.diagnostics

namespace Candidate

theorem member_build (scheme : Enclosure) (p q : Policy) (c : Candidate) :
    (c.build scheme p).member = (c.build scheme q).member := by
  simp only [build, body]
  cases c.template with
  | none => rfl
  | some template =>
    cases read : Template.placeholders scheme template with
    | error e => simp only [read]
    | ok placeholders => simp only [read]

/-- What is wrong with a candidate is wrong under either policy, and a mismatch is raised. -/
theorem rel_complaint? (scheme : Enclosure) (c : Candidate) :
    Option.Rel Diagnostic.IsRaised (c.complaint? scheme .lenient) (c.complaint? scheme .strict) := by
  rw [complaint?, complaint?]
  cases c.template with
  | none => exact .some (Diagnostic.isRaised_self (by rintro ⟨⟩))
  | some template =>
    dsimp only
    cases Template.placeholders scheme template with
    | error e => exact .some (Diagnostic.isRaised_self (by rintro ⟨⟩))
    | ok placeholders =>
      dsimp only
      split_ifs
      · exact .none
      · exact .some ⟨rfl, rfl, rfl, fun _ => ⟨rfl, rfl⟩, fun other => absurd rfl other⟩

end Candidate

/-- The fingerprint of a unit has no part in how it is made. -/
theorem SourceUnit.emit_fingerprint (context : RenderContext) (key : UnitKey) (ms : List Member)
    (f f' : String) : emit context key ms f' =
      (emit context key ms f).map fun entry =>
        { entry with unit := { entry.unit with fingerprint := f' } } := by
  rw [emit, emit]
  rcases renderAll context ms with ⟨kept, skipped⟩
  simp only [bind, Except.bind]
  cases context.unit key (kept.map (·.2)) with
  | error e => rfl
  | ok tokens =>
    cases h : format tokens with
    | error e => simp only [h]; rfl
    | ok source => simp only [h]; rfl

theorem RenderContext.concern_of_skip? {context : RenderContext} {m : Member} {d : Diagnostic}
    (h : context.skip? m = some d) : d.concern = .emission := by
  rw [skip?] at h
  split at h
  · cases h
  · cases h
    rfl

namespace Generator

variable (g : Generator)

/-- The policy has no part in whether a configuration is accepted. -/
theorem IsAccepted.withPolicy {g : Generator} (h : g.IsAccepted) (p : Policy) :
    (g.withPolicy p).IsAccepted := by
  have accept : (g.withPolicy p).configuration.accept = .ok g.context := h.accept_eq
  exact bind_eq_ok.mpr ⟨g.context, accept, rfl⟩

theorem memberOf_withPolicy (p q : Policy) :
    (g.withPolicy p).memberOf = (g.withPolicy q).memberOf :=
  funext fun c => c.member_build g.configuration.enclosure p q

theorem forall₂_complaints (cs : List Candidate) : List.Forall₂ Diagnostic.IsRaised
    (cs.filterMap (g.withPolicy .lenient).complaint?)
    (cs.filterMap (g.withPolicy .strict).complaint?) := by
  refine List.rel_filterMap (R := (· = ·)) ?_ (List.forall₂_same.mpr fun _ _ => rfl)
  rintro c _ rfl
  exact c.rel_complaint? g.configuration.enclosure

theorem unit?_render (k : UnitKey) (cs : List Candidate) : (g.render k cs).unit? =
    (SourceUnit.emit g.context k (cs.map g.memberOf)
      (fingerprint g.configuration cs)).toOption.map UnitEntry.unit := by
  rw [render_eq]
  cases SourceUnit.emit g.context k (cs.map g.memberOf) (fingerprint g.configuration cs) <;> rfl

/-- What is emitted for a group under one policy is emitted under any other, with the fingerprint
under that one. -/
theorem emit_withPolicy (p q : Policy) (k : UnitKey) (cs : List Candidate) :
    SourceUnit.emit (g.withPolicy q).context k (cs.map (g.withPolicy q).memberOf)
      (fingerprint (g.withPolicy q).configuration cs) =
    (SourceUnit.emit (g.withPolicy p).context k (cs.map (g.withPolicy p).memberOf)
      (fingerprint (g.withPolicy p).configuration cs)).map fun entry =>
        { entry with unit := { entry.unit with
            fingerprint := fingerprint (g.withPolicy q).configuration cs } } := by
  rw [g.memberOf_withPolicy q p]
  exact SourceUnit.emit_fingerprint _ _ _ _ _

/-- A group has a unit under either policy, but for the fingerprint the same. -/
theorem rel_unit?_render (k : UnitKey) (cs : List Candidate) :
    Option.Rel SourceUnit.IsTwin ((g.withPolicy .lenient).render k cs).unit?
      ((g.withPolicy .strict).render k cs).unit? := by
  rw [unit?_render, unit?_render, g.emit_withPolicy .lenient .strict]
  cases SourceUnit.emit (g.withPolicy .lenient).context k
    (cs.map (g.withPolicy .lenient).memberOf)
    (fingerprint (g.withPolicy .lenient).configuration cs) with
  | error e => exact .none
  | ok entry => exact .some ⟨rfl, rfl, rfl, rfl⟩

/-- What is reported about a group is raised. -/
theorem forall₂_diagnostics_render (k : UnitKey) (cs : List Candidate) :
    List.Forall₂ Diagnostic.IsRaised ((g.withPolicy .lenient).render k cs).diagnostics
      ((g.withPolicy .strict).render k cs).diagnostics := by
  rw [diagnostics_render, diagnostics_render, g.emit_withPolicy .lenient .strict]
  refine List.rel_append (g.forall₂_complaints cs) ?_
  cases SourceUnit.emit (g.withPolicy .lenient).context k
    (cs.map (g.withPolicy .lenient).memberOf)
    (fingerprint (g.withPolicy .lenient).configuration cs) with
  | error e => exact .cons (Diagnostic.isRaised_self (by rintro ⟨⟩)) .nil
  | ok entry =>
    -- The same members are skipped, since the policy has no part in them.
    rw [g.memberOf_withPolicy .strict .lenient]
    refine List.forall₂_same.mpr fun d hd => Diagnostic.isRaised_self ?_
    obtain ⟨m, -, skipped⟩ := List.mem_filterMap.mp hd
    rw [RenderContext.concern_of_skip? skipped]
    rintro ⟨⟩

theorem isRaised_outputOf (cs : List Candidate) : Output.IsRaised
    (outputOf ((Candidate.groups cs).map fun group =>
      (g.withPolicy .lenient).render group.1 group.2))
    (outputOf ((Candidate.groups cs).map fun group =>
      (g.withPolicy .strict).render group.1 group.2)) := by
  rw [outputOf_groups, outputOf_groups]
  have keys := List.forall₂_same.mpr fun k (_ : k ∈ Candidate.keysOf (Candidate.groups cs)) =>
    (rfl : k = k)
  constructor
  case units =>
    refine List.rel_filterMap ?_ keys
    rintro k _ rfl
    exact g.rel_unit?_render k _
  case diagnostics =>
    refine List.rel_flatMap keys ?_
    rintro k _ rfl
    exact g.forall₂_diagnostics_render k _

/-- The policy has no part in what is generated. -/
theorem generate_isRaised (g : AcceptedGenerator) (ds : List Declaration) :
    ((g.1.withPolicy .lenient).IsAccepted ∧ (g.1.withPolicy .strict).IsAccepted) ∧
      Output.IsRaised ((g.1.withPolicy .lenient).generate ds)
        ((g.1.withPolicy .strict).generate ds) := by
  refine ⟨⟨g.2.withPolicy .lenient, g.2.withPolicy .strict⟩, ?_⟩
  have candidates (p : Policy) : (g.1.withPolicy p).candidates ds = g.1.candidates ds := rfl
  rw [generate, generate, candidates, candidates]
  split_ifs with none
  · exact ⟨.nil, .cons (Diagnostic.isRaised_self (by rintro ⟨⟩)) .nil⟩
  · exact g.1.isRaised_outputOf (g.1.candidates ds)

end Generator

end FormulaBinding
