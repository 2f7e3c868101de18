import FormulaBinding.Proofs.Success
import FormulaBinding.Unit.Emit
import Mathlib.Data.List.Forall2

/-!
# Members that cannot be written

A unit is made of the members that can be written, and it is the unit that these make by themselves.
Each other member leaves one diagnostic, in its place.
-/

namespace FormulaBinding

def RenderContext.canWrite (context : RenderContext) (m : Member) : Bool :=
  (context.member m).toOption.isSome

theorem RenderContext.canWrite_of_ok {context : RenderContext} {m : Member} {tokens : List Token}
    (h : context.member m = .ok tokens) : context.canWrite m = true := by
  rw [canWrite, h]
  rfl

theorem RenderContext.not_canWrite_of_error {context : RenderContext} {m : Member}
    {e : EmissionError} (h : context.member m = .error e) : ¬ context.canWrite m = true := by
  rw [canWrite, h]
  exact Bool.false_ne_true

/-- Whether a diagnostic is the one of a member that cannot be written. -/
def RenderContext.IsSkip (context : RenderContext) (m : Member) (d : Diagnostic) : Prop :=
  ∃ e, context.member m = .error e ∧ d = Diagnostic.memberEmission m e

def RenderContext.skip? (context : RenderContext) (m : Member) : Option Diagnostic :=
  match context.member m with
  | .ok _ => none
  | .error e => some (Diagnostic.memberEmission m e)

theorem RenderContext.related_of_skip? {context : RenderContext} {m : Member} {d : Diagnostic}
    (h : context.skip? m = some d) : d.related = some m.qualifiedName := by
  rw [skip?] at h
  split at h
  · cases h
  · cases h
    rfl

/-- A trait whose path can be written has a plain name. -/
theorem RenderContext.isPlain_of_traitPath {k : UnitKey} {p : Phrase}
    (h : traitPath k = .ok p) : Identifier.isPlain k.container = true := by
  rw [traitPath] at h
  split_ifs at h with _ _ plain
  simpa using plain

namespace SourceUnit

variable {context : RenderContext} {key : UnitKey} {fingerprint : String}

theorem renderAll_of_ok {m : Member} {tokens : List Token} (h : context.member m = .ok tokens)
    (ms : List Member) : renderAll context (m :: ms) =
      ((m, tokens) :: (renderAll context ms).1, (renderAll context ms).2) := by
  rw [renderAll, h]

theorem renderAll_of_error {m : Member} {e : EmissionError} (h : context.member m = .error e)
    (ms : List Member) : renderAll context (m :: ms) =
      ((renderAll context ms).1, Diagnostic.memberEmission m e :: (renderAll context ms).2) := by
  rw [renderAll, h]

theorem map_fst_renderAll (ms : List Member) :
    (renderAll context ms).1.map Prod.fst = ms.filter context.canWrite := by
  induction ms with
  | nil => rfl
  | cons m ms ih =>
    cases h : context.member m with
    | ok tokens =>
      have can := RenderContext.canWrite_of_ok h
      rw [renderAll_of_ok h, List.filter_cons_of_pos can, List.map_cons, ih]
    | error e =>
      have cannot := RenderContext.not_canWrite_of_error h
      rw [renderAll_of_error h, List.filter_cons_of_neg cannot, ih]

/-- Members that can be written are written as they are among others. -/
theorem renderAll_filter (ms : List Member) :
    renderAll context (ms.filter context.canWrite) = ((renderAll context ms).1, []) := by
  induction ms with
  | nil => rfl
  | cons m ms ih =>
    cases h : context.member m with
    | ok tokens =>
      have can := RenderContext.canWrite_of_ok h
      rw [List.filter_cons_of_pos can, renderAll_of_ok h, renderAll_of_ok h, ih]
    | error e =>
      have cannot := RenderContext.not_canWrite_of_error h
      rw [List.filter_cons_of_neg cannot, renderAll_of_error h, ih]

/-- The others leave one diagnostic each, in their order. -/
theorem forall₂_renderAll (context : RenderContext) (ms : List Member) :
    List.Forall₂ context.IsSkip (ms.filter fun m => !context.canWrite m)
      (renderAll context ms).2 := by
  induction ms with
  | nil => exact .nil
  | cons m ms ih =>
    cases h : context.member m with
    | ok tokens =>
      have can : ¬ (!context.canWrite m) = true := by
        simpa using RenderContext.canWrite_of_ok h
      rw [List.filter_cons_of_neg (p := fun m => !context.canWrite m) can, renderAll_of_ok h]
      exact ih
    | error e =>
      have cannot : (!context.canWrite m) = true := by
        simpa using RenderContext.not_canWrite_of_error h
      rw [List.filter_cons_of_pos (p := fun m => !context.canWrite m) cannot, renderAll_of_error h]
      exact .cons ⟨e, h, rfl⟩ ih

theorem snd_renderAll (context : RenderContext) (ms : List Member) :
    (renderAll context ms).2 = ms.filterMap context.skip? := by
  induction ms with
  | nil => rfl
  | cons m ms ih =>
    cases h : context.member m with
    | ok tokens =>
      have none : context.skip? m = none := by rw [RenderContext.skip?, h]
      rw [renderAll_of_ok h, List.filterMap_cons_none none, ih]
    | error e =>
      have some : context.skip? m = some (Diagnostic.memberEmission m e) := by
        rw [RenderContext.skip?, h]
      rw [renderAll_of_error h, List.filterMap_cons_some some, ih]

theorem emit_eq_ok {ms : List Member} {entry : UnitEntry}
    (h : emit context key ms fingerprint = .ok entry) :
    entry.unit.key = key ∧ entry.unit.fingerprint = fingerprint ∧
      entry.unit.members = ms.filter context.canWrite ∧
      entry.diagnostics = (renderAll context ms).2 := by
  obtain ⟨tokens, -, h⟩ := bind_eq_ok.mp h
  obtain ⟨source, -, h⟩ := bind_eq_ok.mp h
  cases h
  exact ⟨rfl, rfl, map_fst_renderAll ms, rfl⟩

/-- Members that cannot be written change nothing about the unit, nor about why there is none. -/
theorem emit_filter (context : RenderContext) (key : UnitKey) (ms : List Member)
    (fingerprint : String) :
    emit context key (ms.filter context.canWrite) fingerprint =
      (emit context key ms fingerprint).map fun entry => { entry with diagnostics := [] } := by
  rw [emit, emit, renderAll_filter]
  rcases renderAll context ms with ⟨kept, skipped⟩
  simp only [bind, Except.bind]
  cases context.unit key (kept.map (·.2)) with
  | error e => rfl
  | ok tokens =>
    cases h : format tokens with
    | error e => simp only [h]; rfl
    | ok source => simp only [h]; rfl

end SourceUnit

end FormulaBinding
