import FormulaBinding.Proofs.Unit.Emission

/-!
# The functions of a unit

The tokens of a unit end with the braces of its implementation. The functions there are the members
that can be written, in their order, each by the identifier that its name is written as.
-/

namespace FormulaBinding

/-- Whether words are the identifiers that names are written as, in order. -/
def Identifier.Spells (words names : List String) : Prop :=
  names.map Identifier.written = words.map .ok

theorem Identifier.Spells.unique {words others names : List String}
    (h : Identifier.Spells words names) (h' : Identifier.Spells others names) : words = others :=
  List.map_injective_iff.mpr (fun _ _ same => Except.ok.inj same) (h.symm.trans h')

namespace Token

/-- The names that follow a `fn`, outside of groups. -/
def functionNames : List Token → List String
  | .name w _ :: .name n e :: ts =>
    if w = "fn" then n :: functionNames ts else functionNames (.name n e :: ts)
  | _ :: ts => functionNames ts
  | [] => []

/-- The names of the functions in the braces that tokens end with. -/
def implementedNames (ts : List Token) : List String :=
  match ts.getLast? with
  | some (.group .brace body _ _) => functionNames body
  | _ => []

theorem implementedNames_append_inBraces (ts body : List Token) :
    implementedNames (ts ++ inBraces body) = functionNames body := by
  rw [implementedNames, inBraces, grouped, List.getLast?_concat]

end Token

namespace RenderContext
open Token

theorem functionNames_member {c : RenderContext} {m : Member} {tokens : List Token}
    (h : c.member m = .ok tokens) :
    ∃ w, Identifier.written m.name = .ok w ∧
      ∀ rest, functionNames (tokens ++ rest) = w :: functionNames rest := by
  obtain ⟨w, hw, h⟩ := bind_eq_ok.mp h
  obtain ⟨parameters, -, h⟩ := bind_eq_ok.mp h
  obtain ⟨statements, -, h⟩ := bind_eq_ok.mp h
  refine ⟨w, mapError_eq_ok.mp hw, ?_⟩
  intro rest
  rw [← Except.ok.inj h]
  rfl

/-- The tokens of the unit of members, before they are formatted. -/
def assemble (c : RenderContext) (k : UnitKey) (ms : List Member) :
    Except EmissionError (List Token) :=
  c.unit k ((SourceUnit.renderAll c ms).1.map Prod.snd)

theorem implementedNames_unit {c : RenderContext} {k : UnitKey} {members : List (List Token)}
    {tokens : List Token} (h : c.unit k members = .ok tokens) :
    implementedNames tokens = functionNames members.flatten := by
  obtain ⟨trait, -, h⟩ := bind_eq_ok.mp h
  obtain ⟨name, -, h⟩ := bind_eq_ok.mp h
  rw [← Except.ok.inj h]
  exact implementedNames_append_inBraces _ _

theorem spells_functionNames (c : RenderContext) (ms : List Member) :
    Identifier.Spells (functionNames ((SourceUnit.renderAll c ms).1.map Prod.snd).flatten)
      ((ms.filter c.canWrite).map Member.name) := by
  induction ms with
  | nil => rfl
  | cons m ms ih =>
    cases h : c.member m with
    | error e =>
      rw [SourceUnit.renderAll_of_error h, List.filter_cons_of_neg (not_canWrite_of_error h)]
      exact ih
    | ok tokens =>
      obtain ⟨w, hw, names⟩ := functionNames_member h
      rw [SourceUnit.renderAll_of_ok h, List.filter_cons_of_pos (canWrite_of_ok h), List.map_cons,
        List.flatten_cons, names, List.map_cons, Identifier.Spells, List.map_cons, List.map_cons,
        hw, ih]

/-- The functions of an assembled unit are the members that can be written. -/
theorem spells_assemble {c : RenderContext} {k : UnitKey} {ms : List Member} {tokens : List Token}
    (h : c.assemble k ms = .ok tokens) :
    Identifier.Spells (implementedNames tokens) ((ms.filter c.canWrite).map Member.name) := by
  rw [implementedNames_unit h]
  exact spells_functionNames c ms

end RenderContext

namespace SourceUnit

theorem exists_assemble_of_emit {context : RenderContext} {key : UnitKey} {ms : List Member}
    {fingerprint : String} {entry : UnitEntry} (h : emit context key ms fingerprint = .ok entry) :
    ∃ tokens, context.assemble key ms = .ok tokens := by
  obtain ⟨tokens, assembled, -⟩ := bind_eq_ok.mp h
  exact ⟨tokens, assembled⟩

/-- A unit can be made if and only if it can be assembled and its tokens make up a file. -/
theorem isOk_emit_iff {c : RenderContext} {k : UnitKey} {ms : List Member} {fingerprint : String} :
    (emit c k ms fingerprint).isOk = true ↔
      ∃ tokens, c.assemble k ms = .ok tokens ∧ (Grammar.readFileTokens tokens).isOk = true := by
  rw [isOk_iff]
  constructor
  · rintro ⟨entry, h⟩
    obtain ⟨tokens, assembled, h⟩ := bind_eq_ok.mp h
    obtain ⟨source, formatted, -⟩ := bind_eq_ok.mp h
    rw [format, mapError_eq_ok] at formatted
    refine ⟨tokens, assembled, ?_⟩
    cases read : Grammar.readFileTokens tokens with
    | error e =>
      rw [read] at formatted
      cases formatted
    | ok rows => rfl
  · rintro ⟨tokens, assembled, read⟩
    obtain ⟨rows, read⟩ := isOk_iff.mp read
    refine ⟨_, bind_eq_ok.mpr ⟨tokens, assembled, bind_eq_ok.mpr ⟨Layout.fileText rows, ?_, rfl⟩⟩⟩
    rw [format, read]
    rfl

end SourceUnit

end FormulaBinding
