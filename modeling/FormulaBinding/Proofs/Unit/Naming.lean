import FormulaBinding.Proofs.Body.Shape
import FormulaBinding.Proofs.Declaration.Names
import FormulaBinding.Proofs.Grammar.Paths
import FormulaBinding.Proofs.Unit.Emission

/-!
# Names that can be written

A path of modules that are names can be written, and so can the locals of a body and the name of a
generated type. What is left to go wrong with a declaration that was read from a source text is the
name of its trait, a parameter named `self`, and the text of a type.
-/

namespace FormulaBinding

namespace Source
open Lexer

theorem toList_modulePath (root : String) (modules : List String) :
    (modulePath root modules).toList = root.toList ++ colonChars modules := by
  induction modules generalizing root with
  | nil => exact (List.append_nil _).symm
  | cons w ws ih =>
    have step : modulePath root (w :: ws) = modulePath (root ++ "::" ++ w) ws := rfl
    rw [step, ih, String.toList_append, String.toList_append]
    simp [colonChars]

end Source

namespace Grammar
open Lexer Source

theorem isSegment_of_isModuleName {w : String} (h : IsModuleName w) : IsSegment w := by
  rcases h with name | rfl
  · exact .inl name.2
  · exact .inr (by decide)

theorem isWord_of_isModuleName {w : String} (h : IsModuleName w) : Text.IsWord w.toList := by
  rcases h with name | rfl
  · exact name.1
  · exact .inl ⟨'t', ['r', 'y'], rfl, by decide, by decide⟩

theorem writeTo_wordPath (n : Nat) (ts : List Token) :
    writeTo n {} (wordPath ts) = wordPath ts := by
  refine writeTo_of_forall (by decide) (fun q mem => ?_) fun q mem m => ?_
  all_goals obtain ⟨t, -, rfl⟩ := List.mem_map.mp mem
  · cases t <;> rfl
  · cases t with
    | name w e => exact writeTo_of_tokens (by decide) fun q mem => ⟨_, List.mem_singleton.mp mem⟩
    | _ => exact writeTo_token _

theorem tokensOf_modulePath {root : String} {ws : List String} (word : Text.IsWord root.toList)
    (h : ∀ w ∈ ws, IsModuleName w) : ∃ e ts, AreSegments ws ts ∧
      tokensOf (modulePath root ws) = .ok (.name root e :: ts) := by
  obtain ⟨e, ts, lexed, segments⟩ :=
    tokens?_of_path word fun w hw => isWord_of_isModuleName (h w hw)
  exact ⟨e, ts, segments, by rw [tokensOf, toList_modulePath, lexed]⟩

theorem readPath_modulePath {root : String} {ws : List String} (word : Text.IsWord root.toList)
    (first : IsSegment root) (h : ∀ w ∈ ws, IsModuleName w) : ∃ e ts, AreSegments ws ts ∧
      readPath (modulePath root ws) = .ok (wordPath (.name root e :: ts)) := by
  obtain ⟨e, ts, segments, tokens⟩ := tokensOf_modulePath word h
  have ends : EndsPath false [] := ⟨rfl, rfl⟩
  let place := Cursor.mk (.name root e :: ts) none none []
  have run := path_run (reader (depth (.name root e :: ts))) (c := place)
    segments first (fun w hw => isSegment_of_isModuleName (h w hw)) ends
    (by rw [List.append_nil])
  have whole := Parser.runAll_eq_ok.mpr ⟨_, run, rfl, rfl, rfl⟩
  refine ⟨e, ts, segments, ?_⟩
  rw [readPath, tokens]
  refine bind_eq_ok.mpr ⟨_, rfl, ?_⟩
  rw [readPhrase, readTokens]
  exact bind_eq_ok.mpr ⟨_, whole, congrArg _ (writeTo_wordPath _ _)⟩

end Grammar

namespace Text

theorem isPlainWord_append {v tail : List Char} (plain : IsPlainWord v)
    (goes : ∀ c ∈ tail, isNameContinue c = true) : IsPlainWord (v ++ tail) := by
  obtain ⟨c, cs, rfl, start, more⟩ := plain
  refine ⟨c, cs ++ tail, rfl, start, fun d hd => ?_⟩
  exact (List.mem_append.mp hd).elim (more d) (goes d)

end Text

/-- A local of a body is a name, since no keyword starts like it. -/
theorem isName_freshName (used : List String) {base : String}
    (plain : Text.IsPlainWord base.toList)
    (free : ∀ w ∈ reservedWords, base.toList.isPrefixOf w.toList = false) :
    Text.IsName (freshName used base) := by
  obtain ⟨k, same⟩ := exists_freshName_eq used base
  have text : (freshName used base).toList = base.toList ++ List.replicate k '_' := by
    rw [same, toList_underscored]
  have goes : ∀ c ∈ List.replicate k '_', Text.isNameContinue c = true := by
    intro c mem
    rw [List.eq_of_mem_replicate mem]
    decide
  refine ⟨.inl (text ▸ Text.isPlainWord_append plain goes), fun reserved => ?_⟩
  have starts : base.toList.isPrefixOf (freshName used base).toList = true := by
    rw [text, List.isPrefixOf_iff_prefix]
    exact List.prefix_append _ _
  rw [free _ reserved] at starts
  cases starts

theorem isName_evaluator (used : List String) : Text.IsName (freshName used "evaluator") :=
  isName_freshName used ⟨'e', "valuator".toList, rfl, by decide, by decide⟩
    (by decide)

theorem isName_result (used : List String) : Text.IsName (freshName used "result") :=
  isName_freshName used ⟨'r', "esult".toList, rfl, by decide, by decide⟩
    (by decide)

namespace Identifier

theorem written_of_isName {w : String} (h : Text.IsName w) : written w = .ok w := by
  obtain ⟨e, read⟩ := readName_of_isName h
  rw [written, read]
  rfl

theorem isOk_written_iff {name : String} (h : IsStored name ∨ name = "self") :
    (written name).isOk = true ↔ name ≠ "self" := by
  have none : (written "self").isOk = false := by decide +kernel
  constructor
  · rintro ok rfl
    rw [none] at ok
    cases ok
  · intro other
    obtain ⟨w, named, rfl⟩ := h.resolve_right other
    obtain ⟨v, same, -⟩ := exists_written_stored named
    rw [same]
    rfl

end Identifier

def Statement.mentions : Statement → List String
  | declareEvaluator evaluator _ _ => [evaluator]
  | bindParameter evaluator _ parameter => [evaluator, parameter]
  | invoke evaluator result => [evaluator, result]
  | giveBack result => [result]
  | discard parameter => [parameter]
  | noExpression => []

/-- A body mentions parameters and its own locals. -/
theorem Candidate.mentions_build {c : Candidate} {scheme : Enclosure} {policy : Policy}
    {s : Statement} (mem : s ∈ (c.build scheme policy).member.body) {w : String}
    (said : w ∈ s.mentions) :
    w ∈ c.parameters.map Parameter.name ∨
      w = freshName (c.parameters.map Parameter.name) "evaluator" ∨
      w = freshName (c.parameters.map Parameter.name) "result" := by
  by_cases accepted : ∃ template found, c.template = some template ∧
      Template.placeholders scheme template = .ok found
  · obtain ⟨template, found, ht, hp⟩ := accepted
    rw [body_build_of_ok ht hp, BodyBuilder.bodyOf, List.mem_cons, List.mem_append, List.mem_cons,
      List.mem_append, List.mem_singleton] at mem
    rcases mem with rfl | bind | rfl | discard | rfl
    · exact .inr (.inl (List.mem_singleton.mp said))
    · obtain ⟨name, bound, rfl⟩ := List.mem_map.mp bind
      rcases List.mem_cons.mp said with rfl | said
      · exact .inr (.inl rfl)
      · rw [List.mem_singleton.mp said]
        exact .inl (of_decide_eq_true (List.mem_filter.mp bound).2)
    · rcases List.mem_cons.mp said with rfl | said
      · exact .inr (.inl rfl)
      · exact .inr (.inr (List.mem_singleton.mp said))
    · obtain ⟨p, hp, rfl⟩ := List.mem_map.mp discard
      rw [List.mem_singleton.mp said]
      exact .inl (List.mem_map_of_mem (List.mem_filter.mp hp).1)
    · exact .inr (.inr (List.mem_singleton.mp said))
  · have none : ∀ template found, c.template = some template →
        Template.placeholders scheme template ≠ .ok found := fun template found ht hp =>
      accepted ⟨template, found, ht, hp⟩
    rw [body_build_of_not_ok none, List.mem_append, List.mem_singleton] at mem
    rcases mem with discard | rfl
    · obtain ⟨p, hp, rfl⟩ := List.mem_map.mp discard
      rw [List.mem_singleton.mp said]
      exact .inl (List.mem_map_of_mem hp)
    · cases said

namespace RenderContext

theorem scope_ne_empty (modules : List String) : Source.modulePath "crate" modules ≠ "" := by
  intro same
  have chars := congrArg String.toList same
  rw [Source.toList_modulePath] at chars
  cases chars

theorem container_ne_empty {w : String} (name : Text.IsName w) : w ≠ "" := by
  rintro rfl
  rcases name.1 with ⟨_, _, same, -⟩ | ⟨_, same, -⟩
  · cases same
  · cases same

theorem isWord_crate : Text.IsWord "crate".toList :=
  .inl ⟨'c', ['r', 'a', 't', 'e'], rfl, by decide, by decide⟩

/-- The path of a trait in a module of the text can be written if and only if its name is a plain
identifier. -/
theorem isOk_traitPath_iff {k : UnitKey} {modules : List String}
    (named : ∀ w ∈ modules, Grammar.IsModuleName w)
    (path : k.scope = Source.modulePath "crate" modules) (trait : Text.IsName k.container) :
    (traitPath k).isOk = true ↔ Identifier.isPlain k.container = true := by
  have scope : k.scope ≠ "" := path ▸ scope_ne_empty modules
  rw [traitPath, if_neg (container_ne_empty trait), if_neg scope]
  cases plain : Identifier.isPlain k.container with
  | false =>
    exact ⟨fun ok => absurd ok Bool.false_ne_true, fun same => absurd same Bool.false_ne_true⟩
  | true =>
    have whole : k.scope ++ "::" ++ k.container =
        Source.modulePath "crate" (modules ++ [k.container]) := by
      rw [Source.modulePath_concat, path]
    have all : ∀ w ∈ modules ++ [k.container], Grammar.IsModuleName w := by
      intro w mem
      rcases List.mem_append.mp mem with mem | mem
      · exact named w mem
      · exact .inl (List.mem_singleton.mp mem ▸ trait)
    obtain ⟨e, ts, -, read⟩ := Grammar.readPath_modulePath isWord_crate (.inr (by decide)) all
    rw [whole, read]
    exact ⟨fun _ => rfl, fun _ => rfl⟩

theorem isName_append_suffix {w : String} (plain : Text.IsPlainWord w.toList) :
    Text.IsName (w ++ "Expressions") := by
  constructor
  · rw [String.toList_append]
    exact .inl (Text.isPlainWord_append plain (by decide))
  · intro reserved
    have ending : "Expressions".toList.isSuffixOf (w ++ "Expressions").toList = true := by
      rw [String.toList_append, List.isSuffixOf_iff_suffix]
      exact List.suffix_append _ _
    have none : ∀ v ∈ reservedWords, "Expressions".toList.isSuffixOf v.toList = false := by decide
    rw [none _ reserved] at ending
    cases ending

theorem unitName_eq {c : RenderContext} {k : UnitKey} (suffix : c.suffix = "Expressions")
    (plain : Text.IsPlainWord k.container.toList) :
    c.unitName k = .ok (k.container ++ "Expressions") := by
  obtain ⟨e, read⟩ := Identifier.readName_of_isName (isName_append_suffix plain)
  rw [unitName, suffix]
  simp only [read]
  rfl

/-- A statement can be written if the names in it can. -/
theorem isOk_statement (c : RenderContext) {s : Statement}
    (h : ∀ w ∈ s.mentions, (Identifier.written w).isOk = true) : (c.statement s).isOk = true := by
  rw [isOk_iff]
  have each : ∀ w ∈ s.mentions, ∃ v, Identifier.written w = .ok v := fun w mem =>
    isOk_iff.mp (h w mem)
  cases s with
  | declareEvaluator evaluator template isMutable =>
    obtain ⟨e, he⟩ := each evaluator (by simp [Statement.mentions])
    exact ⟨_, bind_eq_ok.mpr ⟨e, he, rfl⟩⟩
  | bindParameter evaluator placeholder parameter =>
    obtain ⟨e, he⟩ := each evaluator (by simp [Statement.mentions])
    obtain ⟨p, hp⟩ := each parameter (by simp [Statement.mentions])
    exact ⟨_, bind_eq_ok.mpr ⟨e, he, bind_eq_ok.mpr ⟨p, hp, rfl⟩⟩⟩
  | invoke evaluator result =>
    obtain ⟨e, he⟩ := each evaluator (by simp [Statement.mentions])
    obtain ⟨r, hr⟩ := each result (by simp [Statement.mentions])
    exact ⟨_, bind_eq_ok.mpr ⟨e, he, bind_eq_ok.mpr ⟨r, hr, rfl⟩⟩⟩
  | giveBack result =>
    obtain ⟨r, hr⟩ := each result (by simp [Statement.mentions])
    exact ⟨_, bind_eq_ok.mpr ⟨r, hr, rfl⟩⟩
  | discard parameter =>
    obtain ⟨p, hp⟩ := each parameter (by simp [Statement.mentions])
    exact ⟨_, bind_eq_ok.mpr ⟨p, hp, rfl⟩⟩
  | noExpression => exact ⟨_, rfl⟩

/-- The statements of a body can be written if the names of the parameters can. -/
theorem isOk_statement_of_mem_build (c : RenderContext) {d : Candidate} {scheme : Enclosure}
    {policy : Policy} (names : ∀ p ∈ d.parameters, (Identifier.written p.name).isOk = true)
    {s : Statement} (mem : s ∈ (d.build scheme policy).member.body) :
    (c.statement s).isOk = true := by
  apply isOk_statement
  intro w said
  rcases Candidate.mentions_build mem said with parameter | rfl | rfl
  · obtain ⟨p, mem, rfl⟩ := List.mem_map.mp parameter
    exact names p mem
  · exact isOk_iff.mpr ⟨_, Identifier.written_of_isName (isName_evaluator _)⟩
  · exact isOk_iff.mpr ⟨_, Identifier.written_of_isName (isName_result _)⟩

theorem isOk_parameter_iff {m : Member} {p : Parameter} :
    (parameter m p).isOk = true ↔
      (Identifier.written p.name).isOk = true ∧ (Grammar.readType p.type).isOk = true := by
  rw [isOk_iff, isOk_iff, isOk_iff]
  constructor
  · rintro ⟨ts, h⟩
    obtain ⟨w, name, h⟩ := bind_eq_ok.mp h
    obtain ⟨type, read, -⟩ := bind_eq_ok.mp h
    exact ⟨⟨w, mapError_eq_ok.mp name⟩, type, mapError_eq_ok.mp read⟩
  · rintro ⟨⟨w, name⟩, type, read⟩
    exact ⟨_, bind_eq_ok.mpr ⟨w, mapError_eq_ok.mpr name,
      bind_eq_ok.mpr ⟨type, mapError_eq_ok.mpr read, rfl⟩⟩⟩

theorem isOk_member_iff {c : RenderContext} {m : Member} :
    (c.member m).isOk = true ↔ (Identifier.written m.name).isOk = true ∧
      (∀ p ∈ m.parameters, (parameter m p).isOk = true) ∧
      ∀ s ∈ m.body, (c.statement s).isOk = true := by
  rw [← isOk_mapM (f := c.statement), ← isOk_mapM (f := parameter m), isOk_iff, isOk_iff, isOk_iff,
    isOk_iff]
  constructor
  · rintro ⟨ts, h⟩
    obtain ⟨w, name, h⟩ := bind_eq_ok.mp h
    obtain ⟨parameters, written, h⟩ := bind_eq_ok.mp h
    obtain ⟨statements, body, -⟩ := bind_eq_ok.mp h
    exact ⟨⟨w, mapError_eq_ok.mp name⟩, ⟨parameters, written⟩, statements, mapError_eq_ok.mp body⟩
  · rintro ⟨⟨w, name⟩, ⟨parameters, written⟩, statements, body⟩
    exact ⟨_, bind_eq_ok.mpr ⟨w, mapError_eq_ok.mpr name, bind_eq_ok.mpr ⟨parameters, written,
      bind_eq_ok.mpr ⟨statements, mapError_eq_ok.mpr body, rfl⟩⟩⟩⟩

end RenderContext

end FormulaBinding
