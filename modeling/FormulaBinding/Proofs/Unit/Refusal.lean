import FormulaBinding.Proofs.Unit.Naming

/-!
# Why a member is left out

A member that is made for a candidate is left out exactly if its signature cannot be written: the
name, or the name or the type of a parameter. What is reported is the first of these parts. The body
is never the reason, whatever the template, since all it mentions are parameters and its own locals.
-/

namespace FormulaBinding

/-- Whether a parameter can be written: its name is one, and its type is read as a type. -/
structure Parameter.IsWritable (p : Parameter) : Prop where
  name : (Identifier.written p.name).isOk = true
  type : (Grammar.readType p.type).isOk = true

theorem Parameter.isWritable_iff_and {p : Parameter} : p.IsWritable ↔
    (Identifier.written p.name).isOk = true ∧ (Grammar.readType p.type).isOk = true :=
  ⟨fun h => ⟨h.name, h.type⟩, fun h => ⟨h.1, h.2⟩⟩

/-- What a candidate is left out for: the first part of its signature that cannot be written, of the
name and then, parameter by parameter, the parameter's name and its type. -/
inductive Candidate.Blames (d : Candidate) : EmissionError → Prop where
  | name {fault : ParseError} (failed : Identifier.written d.name = .error fault) :
      Blames d (.signature d.name "name" d.name fault)
  | parameter {before after : List Parameter} {p : Parameter} {fault : ParseError}
      (named : (Identifier.written d.name).isOk = true) (split : d.parameters = before ++ p :: after)
      (earlier : ∀ q ∈ before, q.IsWritable) (failed : Identifier.written p.name = .error fault) :
      Blames d (.signature d.name "parameter" p.name fault)
  | type {before after : List Parameter} {p : Parameter} {fault : ParseError}
      (named : (Identifier.written d.name).isOk = true) (split : d.parameters = before ++ p :: after)
      (earlier : ∀ q ∈ before, q.IsWritable) (own : (Identifier.written p.name).isOk = true)
      (failed : Grammar.readType p.type = .error fault) :
      Blames d (.signature d.name "type" p.type fault)

namespace RenderContext

variable {c : RenderContext} {m : Member} {p : Parameter} {e : EmissionError}

theorem partOf_eq_error_iff {α : Type} {what text : String} {x : Except ParseError α} :
    partOf m what text x = .error e ↔
      ∃ fault, x = .error fault ∧ e = .signature m.name what text fault := by
  rw [partOf, mapError_eq_error]
  exact exists_congr fun fault => and_congr_right fun _ => eq_comm

theorem isWritable_iff : p.IsWritable ↔ ∃ ts, parameter m p = .ok ts := by
  rw [← isOk_iff, isOk_parameter_iff, p.isWritable_iff_and]

theorem parameter_eq_error_iff :
    parameter m p = .error e ↔
      (∃ fault, Identifier.written p.name = .error fault ∧
        e = .signature m.name "parameter" p.name fault) ∨
      (Identifier.written p.name).isOk = true ∧
        ∃ fault, Grammar.readType p.type = .error fault ∧
          e = .signature m.name "type" p.type fault := by
  rw [parameter, bind_eq_error, partOf_eq_error_iff, isOk_iff]
  refine or_congr_right ?_
  constructor
  · rintro ⟨w, name, h⟩
    have type := (bind_eq_error.mp h).resolve_right nofun
    exact ⟨⟨w, mapError_eq_ok.mp name⟩, partOf_eq_error_iff.mp type⟩
  · rintro ⟨⟨w, name⟩, type⟩
    exact ⟨w, mapError_eq_ok.mpr name, bind_eq_error.mpr (.inl (partOf_eq_error_iff.mpr type))⟩

theorem mapM_parameter_eq_error_iff {ps : List Parameter} :
    ps.mapM (parameter m) = .error e ↔ ∃ before p after, ps = before ++ p :: after ∧
      (∀ q ∈ before, q.IsWritable) ∧ parameter m p = .error e := by
  simp only [mapM_eq_error_iff, isWritable_iff (m := m)]

/-- A member whose statements can be written fails at its name or at its parameters. -/
theorem member_eq_error_iff
    (body : (∀ p ∈ m.parameters, p.IsWritable) → ∀ s ∈ m.body, (c.statement s).isOk = true) :
    c.member m = .error e ↔
      (∃ fault, Identifier.written m.name = .error fault ∧
        e = .signature m.name "name" m.name fault) ∨
      (Identifier.written m.name).isOk = true ∧ m.parameters.mapM (parameter m) = .error e := by
  rw [member, bind_eq_error, partOf_eq_error_iff, isOk_iff]
  refine or_congr_right ?_
  constructor
  · rintro ⟨w, name, h⟩
    refine ⟨⟨w, mapError_eq_ok.mp name⟩, (bind_eq_error.mp h).resolve_right ?_⟩
    rintro ⟨parameters, written, h⟩
    have each : ∀ p ∈ m.parameters, p.IsWritable := fun p mem =>
      isWritable_iff.mpr (isOk_iff.mp (isOk_mapM.mp (isOk_iff.mpr ⟨parameters, written⟩) p mem))
    obtain ⟨fault, failed, -⟩ :=
      partOf_eq_error_iff.mp ((bind_eq_error.mp h).resolve_right nofun)
    have ok := isOk_mapM.mpr (body each)
    rw [failed] at ok
    cases ok
  · rintro ⟨⟨w, name⟩, failed⟩
    exact ⟨w, mapError_eq_ok.mpr name, bind_eq_error.mpr (.inl failed)⟩

/-- A member that is made for a candidate can be written exactly if its signature can. -/
theorem isOk_member_build_iff (c : RenderContext) (d : Candidate) (scheme : Enclosure)
    (policy : Policy) :
    (c.member (d.build scheme policy).member).isOk = true ↔
      (Identifier.written d.name).isOk = true ∧ ∀ p ∈ d.parameters, p.IsWritable := by
  rw [isOk_member_iff]
  refine and_congr_right fun _ => ?_
  constructor
  · rintro ⟨parameters, -⟩ p mem
    exact isWritable_iff.mpr (isOk_iff.mp (parameters p mem))
  · intro each
    exact ⟨fun p mem => isOk_iff.mpr (isWritable_iff.mp (each p mem)),
      fun s mem => isOk_statement_of_mem_build c (fun p mem => (each p mem).name) mem⟩

/-- A member that is made for a candidate is left out exactly if its name cannot be written, the
name of a parameter cannot be written, or the type of a parameter is no type. What it is left out for
is the first of these, and never the body. -/
theorem member_build_eq_error_iff (c : RenderContext) (d : Candidate) (scheme : Enclosure)
    (policy : Policy) :
    ((∃ e, c.member (d.build scheme policy).member = .error e) ↔
      (Identifier.written d.name).isOk = false ∨
        ∃ p ∈ d.parameters, (Identifier.written p.name).isOk = false ∨
          (Grammar.readType p.type).isOk = false) ∧
      ∀ e, c.member (d.build scheme policy).member = .error e ↔ d.Blames e := by
  constructor
  · rw [← isOk_eq_false_iff, ← Bool.not_eq_true, isOk_member_build_iff]
    simp only [not_and_or, not_forall, Parameter.isWritable_iff_and, Bool.not_eq_true, exists_prop]
  intro e
  have body : (∀ p ∈ d.parameters, p.IsWritable) →
      ∀ s ∈ (d.build scheme policy).member.body, (c.statement s).isOk = true :=
    fun each s mem => isOk_statement_of_mem_build c (fun p mem => (each p mem).name) mem
  rw [member_eq_error_iff body, mapM_parameter_eq_error_iff]
  constructor
  · rintro (⟨fault, failed, rfl⟩ | ⟨named, before, p, after, split, earlier, failed⟩)
    · exact .name failed
    rcases parameter_eq_error_iff.mp failed with ⟨fault, name, rfl⟩ | ⟨own, fault, type, rfl⟩
    · exact .parameter named split earlier name
    · exact .type named split earlier own type
  · intro blames
    cases blames with
    | name failed => exact .inl ⟨_, failed, rfl⟩
    | parameter named split earlier failed =>
      refine .inr ⟨named, _, _, _, split, earlier, ?_⟩
      exact parameter_eq_error_iff.mpr (.inl ⟨_, failed, rfl⟩)
    | type named split earlier own failed =>
      refine .inr ⟨named, _, _, _, split, earlier, ?_⟩
      exact parameter_eq_error_iff.mpr (.inr ⟨own, _, failed, rfl⟩)

end RenderContext
end FormulaBinding
