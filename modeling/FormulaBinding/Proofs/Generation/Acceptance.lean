import FormulaBinding.Generation
import FormulaBinding.Proofs.Success

/-!
# Accepted generators

A generator is accepted if it is the one that is made of its own configuration. Its paths are then
those of the configuration.
-/

namespace FormulaBinding

namespace Generator

/-- Whether a generator is the one of its configuration, so that the configuration was accepted. -/
def IsAccepted (g : Generator) : Prop := make g.configuration = .ok g

theorem isAccepted_of_make {c : Configuration} {g : Generator} (h : make c = .ok g) :
    g.IsAccepted := by
  obtain ⟨context, ha, he⟩ := bind_eq_ok.mp h
  have : (⟨c, context⟩ : Generator) = g := Except.ok.inj he
  rw [IsAccepted, ← this]
  exact bind_eq_ok.mpr ⟨context, ha, rfl⟩

theorem IsAccepted.accept_eq {g : Generator} (h : g.IsAccepted) :
    g.configuration.accept = .ok g.context := by
  obtain ⟨context, ha, he⟩ := bind_eq_ok.mp h
  have : (⟨g.configuration, context⟩ : Generator) = g := Except.ok.inj he
  rw [ha, ← this]

end Generator

abbrev AcceptedGenerator := { g : Generator // g.IsAccepted }

def AcceptedGenerator.ofConfiguration (c : Configuration)
    (h : (Generator.make c).toOption.isSome = true) : AcceptedGenerator where
  val := (Generator.make c).toOption.get h
  property := by
    have accepted : ∃ g, Generator.make c = .ok g := by
      cases made : Generator.make c with
      | error _ => simp [made, Except.toOption] at h
      | ok g => exact ⟨g, rfl⟩
    obtain ⟨g, made⟩ := accepted
    have same : (Generator.make c).toOption.get h = g := by simp [made, Except.toOption]
    rw [same]
    exact Generator.isAccepted_of_make made

theorem AcceptedGenerator.configuration_ofConfiguration (c : Configuration)
    (h : (Generator.make c).toOption.isSome = true) :
    (ofConfiguration c h).1.configuration = c := by
  have val : (ofConfiguration c h).1 = (Generator.make c).toOption.get h := rfl
  cases made : Generator.make c with
  | error _ => simp [made, Except.toOption] at h
  | ok g =>
    have same : (Generator.make c).toOption.get h = g := by simp [made, Except.toOption]
    obtain ⟨context, -, whole⟩ := bind_eq_ok.mp made
    rw [val, same, ← Except.ok.inj whole]

theorem Generator.isSome_make_default : (make {}).toOption.isSome = true := by decide +kernel

def AcceptedGenerator.default : AcceptedGenerator :=
  ofConfiguration {} Generator.isSome_make_default

namespace AcceptedGenerator

theorem context_eq (g : AcceptedGenerator) : g.1.configuration.context = .ok g.1.context ∧
    Configuration.isSuffix g.1.configuration.suffix = true := by
  obtain ⟨context, made, accepted⟩ := bind_eq_ok.mp g.2.accept_eq
  cases valid : Configuration.isSuffix g.1.configuration.suffix with
  | false =>
    rw [valid] at accepted
    cases accepted
  | true =>
    rw [valid] at accepted
    rw [← Except.ok.inj accepted]
    exact ⟨made, rfl⟩

/-- A generator's context has the paths that are read of its configuration. -/
theorem paths_context (g : AcceptedGenerator) :
    g.1.configuration.evaluatorPath = .ok g.1.context.evaluator ∧
      g.1.configuration.runtimePath = .ok g.1.context.runtime := by
  obtain ⟨evaluator, read, made⟩ := bind_eq_ok.mp g.context_eq.1
  obtain ⟨runtime, read', made⟩ := bind_eq_ok.mp made
  rw [← Except.ok.inj made]
  exact ⟨read, read'⟩

/-- A generator's context has the suffix of its configuration, which was accepted. -/
theorem suffix_context (g : AcceptedGenerator) :
    g.1.context.suffix = g.1.configuration.suffix ∧
      Configuration.isSuffix g.1.configuration.suffix = true := by
  obtain ⟨made, valid⟩ := g.context_eq
  obtain ⟨evaluator, -, made⟩ := bind_eq_ok.mp made
  obtain ⟨runtime, -, made⟩ := bind_eq_ok.mp made
  rw [← Except.ok.inj made]
  exact ⟨rfl, valid⟩

end AcceptedGenerator

end FormulaBinding
