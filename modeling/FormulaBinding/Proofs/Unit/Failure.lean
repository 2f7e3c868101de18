import FormulaBinding.Proofs.Grammar.Bodies
import FormulaBinding.Proofs.Grammar.PlainTypes
import FormulaBinding.Proofs.Unit.Reading

/-!
# What makes a unit fail

A unit whose key names a trait and a type is made, unless one of the functions that are written for
its members cannot be read, which does not depend on the other members. The paths of the
configuration, which are read where a type stands, have to be paths where they are written: then no
name, receiver or template stands in the way, and neither does a type that is one by itself.
-/

namespace FormulaBinding
open Grammar Token FormulaBinding.Parser

/-- Whether the function that is written for a member, if there is one, can be read by itself. -/
def Member.Reads (c : RenderContext) (m : Member) : Prop :=
  ∀ tokens, c.member m = .ok tokens →
    ∀ n, depth tokens ≤ n → (runAll (implMember (reader n)) tokens).isOk = true

/-- Whether the type of a parameter, as it is written, is a type by itself. -/
def Parameter.IsStable (x : Parameter) : Prop := ∀ ts, x.HasTokens ts → IsType ts

instance (x : Parameter) : Decidable x.IsStable :=
  match h : readType x.type with
  | .ok type => decidable_of_iff (IsType type.tokens) (by simp [Parameter.IsStable, Parameter.HasTokens, h])
  | .error _ => isTrue (by simp [Parameter.IsStable, Parameter.HasTokens, h])

/-- Whether the type of a parameter is the text of a plain type. -/
def Parameter.IsPlain (x : Parameter) : Prop :=
  ∃ S, Grammar.IsPlain (.type true) S ∧ x.type = Token.textList S

theorem Parameter.IsPlain.isOk_readType {x : Parameter} (h : x.IsPlain) :
    (readType x.type).isOk = true := by
  obtain ⟨S, plain, text⟩ := h
  obtain ⟨q, read, -⟩ := plain.readType_eq
  exact isOk_iff.mpr ⟨q, text ▸ read⟩

/-- A plain type is a type by itself where it is written. -/
theorem Parameter.IsPlain.isStable {x : Parameter} (h : x.IsPlain) : x.IsStable := by
  obtain ⟨S, plain, text⟩ := h
  rintro us ⟨type, read, rfl⟩
  obtain ⟨q, again, spells⟩ := plain.readType_eq
  rw [text, again] at read
  cases read
  exact plain.isType spells

/-- Whether the paths that generated code refers to are paths where it refers to them: the evaluator
as a type, and the runtime in an expression. -/
structure RenderContext.HasPaths (c : RenderContext) : Prop where
  evaluator : IsTypePath c.evaluator.tokens
  runtime : IsPath true c.runtime.tokens

instance (c : RenderContext) : Decidable c.HasPaths :=
  decidable_of_iff (IsTypePath c.evaluator.tokens ∧ IsPath true c.runtime.tokens)
    ⟨fun h => ⟨h.1, h.2⟩, fun h => ⟨h.1, h.2⟩⟩

/-! ## Statements -/

/-- Whether a statement gives back the value of a function. -/
def Statement.isLast : Statement → Bool
  | giveBack _ => true
  | noExpression => true
  | _ => false

/-- Whether a body gives back a value where it ends, and nowhere else. -/
def EndsOnce (body : List Statement) : Prop :=
  ∃ before last, body = before ++ [last] ∧ (∀ s ∈ before, s.isLast = false) ∧ last.isLast = true

theorem BodyBuilder.endsOnce_bodyOf (parameters : List Parameter) (template : String)
    (names : List String) : EndsOnce (bodyOf parameters template names) := by
  let evaluator := freshName (parameters.map Parameter.name) "evaluator"
  let result := freshName (parameters.map Parameter.name) "result"
  refine ⟨.declareEvaluator evaluator template (!names.isEmpty) :: (binds evaluator names ++
    .invoke evaluator result :: (parameters.filter (·.name ∉ names)).map (.discard ·.name)),
    .giveBack result, by simp [bodyOf, evaluator, result], fun s mem => ?_, rfl⟩
  rw [List.mem_cons, List.mem_append, List.mem_cons] at mem
  rcases mem with rfl | bind | rfl | discard
  · rfl
  · obtain ⟨_, -, rfl⟩ := List.mem_map.mp bind
    rfl
  · rfl
  · obtain ⟨_, -, rfl⟩ := List.mem_map.mp discard
    rfl

/-- A body that is made for a method gives back a value where it ends. -/
theorem Candidate.endsOnce_build (d : Candidate) (scheme : Enclosure) (policy : Policy) :
    EndsOnce (d.build scheme policy).member.body := by
  by_cases accepted : ∃ template found, d.template = some template ∧
      Template.placeholders scheme template = .ok found
  · obtain ⟨template, found, ht, hp⟩ := accepted
    rw [body_build_of_ok ht hp]
    exact BodyBuilder.endsOnce_bodyOf _ _ _
  · have none : ∀ template found, d.template = some template →
        Template.placeholders scheme template ≠ .ok found := fun template found ht hp =>
      accepted ⟨template, found, ht, hp⟩
    rw [body_build_of_not_ok none]
    refine ⟨_, _, rfl, fun s mem => ?_, rfl⟩
    obtain ⟨_, -, rfl⟩ := List.mem_map.mp mem
    rfl

namespace RenderContext
open Token

variable {c : RenderContext} {m : Member} {s : Statement} {ts : List Token}

theorem runtimeItem_concat (segments : List String) (w : String) :
    c.runtimeItem (segments ++ [w]) = c.runtimeItem segments ++ (op "::" ++ ident w) := by
  simp [runtimeItem]

/-- Names of the contract's module behind the runtime are a path of an expression. -/
theorem HasPaths.isPath (h : c.HasPaths) (segments : List String)
    (free : ∀ w ∈ segments, w ∉ reservedWords) : IsPath true (c.runtimeItem segments) := by
  induction segments using List.reverseRecOn with
  | nil => simpa [runtimeItem] using h.runtime
  | append_singleton segments w ih =>
    rw [runtimeItem_concat]
    exact (ih fun v mem => free v (List.mem_append_left _ mem)).concat (free w (by simp)) _ _ _

theorem HasPaths.isOperand (h : c.HasPaths) (segments : List String) (w : String)
    (free : ∀ v ∈ segments ++ [w], v ∉ reservedWords) :
    IsOperand (c.runtimeItem (segments ++ [w])) ∧ 1 < (c.runtimeItem (segments ++ [w])).length := by
  rw [runtimeItem_concat]
  exact ⟨(h.isPath segments fun v mem => free v (List.mem_append_left _ mem)).isOperand_concat
    (free w (by simp)), length_lt_concat _ w⟩

/-- The statements in front of the last one are read where the context has paths. -/
theorem readsStatement (paths : c.HasPaths) (other : s.isLast = false)
    (h : c.statement s = .ok ts) : ReadsStatement ts := by
  cases s with
  | declareEvaluator evaluator template isMutable =>
    obtain ⟨w, written, h⟩ := bind_eq_ok.mp h
    have free := Identifier.notMem_reservedWords_of_written written
    have pattern : ReadsPattern ((if isMutable then ident "mut" else []) ++ ident w) := by
      cases isMutable with
      | false => exact readsPattern_word free
      | true => exact readsPattern_mutable free
    have trait := (paths.isPath ["Evaluator"] (by decide)).of_expr
    have arguments : ∀ ts ∈ [quoted template], ReadsExpr ts := by
      simpa using readsExpr_quoted template
    have value := readsExpr_qualified paths.evaluator trait (w := "construct") (by decide) arguments
    have statement := readsStatement_let pattern value
    cases h
    simpa [qualifiedTokens, commaSeparated] using statement
  | bindParameter evaluator placeholder parameter =>
    obtain ⟨w, written, h⟩ := bind_eq_ok.mp h
    obtain ⟨v, written', h⟩ := bind_eq_ok.mp h
    have free := Identifier.notMem_reservedWords_of_written written
    have free' := Identifier.notMem_reservedWords_of_written written'
    have inner : ∀ ts ∈ [ident v], ReadsExpr ts := by simpa using (isOperand_word free').readsExpr
    have value := (paths.isOperand ["Value"] "from" (by decide)).1.readsExpr_call inner
    have arguments : ∀ ts ∈ [op "&" ++ ident "mut" ++ ident w, quoted placeholder,
        c.runtimeItem ["Value", "from"] ++ inParens (ident v)], ReadsExpr ts := by
      simp only [List.forall_mem_cons]
      exact ⟨readsExpr_mutable free, readsExpr_quoted placeholder, value, List.forall_mem_nil _⟩
    obtain ⟨operand, long⟩ := paths.isOperand ["Evaluator"] "bind" (by decide)
    have statement := readsStatement_call operand long arguments
    cases h
    simpa [commaSeparated] using statement
  | invoke evaluator result =>
    obtain ⟨w, written, h⟩ := bind_eq_ok.mp h
    obtain ⟨v, written', h⟩ := bind_eq_ok.mp h
    have free := Identifier.notMem_reservedWords_of_written written
    have free' := Identifier.notMem_reservedWords_of_written written'
    have arguments : ∀ ts ∈ [op "&" ++ ident w], ReadsExpr ts := by
      simpa using readsExpr_reference free
    have value := (paths.isOperand ["Evaluator"] "evaluate" (by decide)).1.readsExpr_call arguments
    have statement := readsStatement_let (readsPattern_word free') value
    cases h
    simpa [commaSeparated] using statement
  | discard parameter =>
    obtain ⟨w, written, h⟩ := bind_eq_ok.mp h
    have free := Identifier.notMem_reservedWords_of_written written
    have statement := readsStatement_let readsPattern_discard (readsExpr_reference free)
    cases h
    simpa using statement
  | giveBack result => cases other
  | noExpression => cases other

theorem readsLast (paths : c.HasPaths) (last : s.isLast = true) (h : c.statement s = .ok ts) :
    ReadsLast ts := by
  cases s with
  | giveBack result =>
    obtain ⟨w, written, h⟩ := bind_eq_ok.mp h
    have free := Identifier.notMem_reservedWords_of_written written
    have arguments : ∀ ts ∈ [ident w], ReadsExpr ts := by simpa using (isOperand_word free).readsExpr
    obtain ⟨operand, long⟩ := paths.isOperand ["NumericResult"] "into_f64" (by decide)
    have statement := readsLast_call operand long arguments
    cases h
    simpa [commaSeparated] using statement
  | noExpression =>
    cases h
    exact readsLast_nan
  | declareEvaluator => cases last
  | bindParameter => cases last
  | invoke => cases last
  | discard => cases last

theorem body_run (paths : c.HasPaths) (once : EndsOnce m.body) {statements : List (List Token)}
    (h : m.body.mapM c.statement = .ok statements) {n : Nat}
    (enough : depth statements.flatten < n) {d : Cursor}
    (rest : d.rest = statements.flatten) (clear : d.leftover = none) :
    ∃ row, bodyContent (reader (n + 1)) d = .ok ((), { d with rest := [], row := row }) := by
  obtain ⟨before, last, whole, others, ends⟩ := once
  rw [whole, List.mapM_append] at h
  obtain ⟨tss, first, h⟩ := bind_eq_ok.mp h
  obtain ⟨tss', second, h⟩ := bind_eq_ok.mp h
  cases h
  rw [List.mapM_cons] at second
  obtain ⟨ts, value, second⟩ := bind_eq_ok.mp second
  cases second
  have flat : (tss ++ [ts]).flatten = tss.flatten ++ ts := by simp
  refine bodyContent_run (fun us mem => ?_) (readsLast paths ends value) (flat ▸ enough)
    (rest.trans flat) clear
  obtain ⟨s, inside, written⟩ := exists_of_mem_mapM first mem
  exact readsStatement paths (others s inside) written

end RenderContext

/-! ## Members -/

theorem Token.sizeList_le_of_mem {tss : List (List Token)} {ts : List Token} (mem : ts ∈ tss) :
    sizeList ts ≤ sizeList tss.flatten := by
  induction tss with
  | nil => cases mem
  | cons us tss ih =>
    rw [List.flatten_cons, sizeList_append]
    rcases List.mem_cons.mp mem with rfl | mem
    · exact Nat.le_add_right _ _
    · exact (ih mem).trans (Nat.le_add_left _ _)

/-- Whether a phrase is the function that is written for a member, read again: each of its parameters
has the type that its tokens are by themselves. -/
def Member.IsFunction (m : Member) (f : Phrase) : Prop :=
  ∃ w content statements ps qs, Identifier.written m.name = .ok w ∧
    f = functionPhrase w content statements ∧
    Phrase.rolesOf content = (m.receiver.map receiverPhrase).toList ++ qs ∧
    List.Forall₂ Parameter.IsWrittenWith m.parameters ps ∧ List.Forall₂ IsInputAs ps qs

/-- A member whose body gives back a value where it ends is read as its function, where the context
has paths, if the type of each of its parameters is a type by itself. -/
theorem Member.exists_isFunction {c : RenderContext} (paths : c.HasPaths) {m : Member}
    (once : EndsOnce m.body) (types : ∀ x ∈ m.parameters, x.IsStable) {tokens : List Token}
    (h : c.member m = .ok tokens) {n : Nat} (enough : depth tokens ≤ n) :
    ∃ f, m.IsFunction f ∧ runAll (implMember (reader n)) tokens = .ok ((), [f]) := by
  obtain ⟨w, ps, statements, name, each, body, rfl⟩ := RenderContext.exists_functionParts h
  have free := Identifier.notMem_reservedWords_of_written name
  obtain ⟨n, rfl⟩ : ∃ k, n = k + 1 := by
    rw [depth] at enough
    exact ⟨n - 1, by omega⟩
  have all : ∀ p ∈ ps, p.1 ∉ reservedWords ∧ AreCalm p.2 ∧ IsType p.2 ∧ depth p.2 ≤ n + 1 := by
    intro p mem
    obtain ⟨x, inside, written⟩ := exists_of_mem_forall₂ each mem
    have smaller := sizeList_le_commaSeparated (List.mem_map_of_mem (f := inputTokens) mem)
    refine ⟨Identifier.notMem_reservedWords_of_written written.name, written.type.areCalm,
      types x inside p.2 written.type, ?_⟩
    simp only [depth, functionTokens, signatureTokens, inParens, grouped, inputTokens,
      sizeList_append, sizeList, size] at enough smaller ⊢
    omega
  obtain ⟨row, qs, roles, inputs, run⟩ := parameters_run (n := n)
    (c := ⟨_, some (.parenthesis, Extent.nowhere), none, []⟩) all rfl rfl rfl
  have fits : depth statements.flatten < n := by
    simp only [depth, functionTokens, inBraces, grouped, sizeList_append, sizeList, size] at enough ⊢
    omega
  obtain ⟨row', run'⟩ := RenderContext.body_run (n := n) paths once body fits
    (d := ⟨_, some (.brace, Extent.nowhere), none, []⟩) rfl rfl
  have whole := (implMember_eq_ok (c := { rest := functionTokens w _ _ }) (u := ())
    (List.append_nil _).symm).mpr ⟨free, _, _, run, run', rfl⟩
  exact ⟨_, ⟨w, _, _, ps, qs, name, rfl, roles, each, inputs⟩,
    runAll_eq_ok.mpr ⟨_, whole, rfl, rfl, rfl⟩⟩

theorem Member.reads_of_hasPaths {c : RenderContext} (paths : c.HasPaths) {m : Member}
    (once : EndsOnce m.body) (types : ∀ x ∈ m.parameters, x.IsStable) : m.Reads c := by
  intro tokens h n enough
  obtain ⟨f, -, run⟩ := Member.exists_isFunction paths once types h enough
  exact isOk_iff.mpr ⟨_, run⟩

/-! ## Units -/

/-- Whether the path of the trait of a key, as it is written, may stand as a type. -/
def UnitKey.NamesTrait (k : UnitKey) : Prop :=
  ∀ trait, RenderContext.traitPath k = .ok trait → IsTypePath trait.tokens

instance (k : UnitKey) : Decidable k.NamesTrait :=
  match h : RenderContext.traitPath k with
  | .ok trait => decidable_of_iff (IsTypePath trait.tokens) (by simp [UnitKey.NamesTrait, h])
  | .error _ => isTrue (by simp [UnitKey.NamesTrait, h])

theorem UnitKey.IsInModule.namesTrait {k : UnitKey} (h : k.IsInModule) : k.NamesTrait := by
  intro trait path
  obtain ⟨root, e, modules, ts, first, all, segments, rfl⟩ := RenderContext.exists_wordPath h path
  rw [tokens_wordPath]
  exact isTypePath_of_segments segments first all

namespace SourceUnit
open RenderContext

variable {c : RenderContext} {k : UnitKey} {ms : List Member}

theorem mem_of_mem_renderAll {x : Member × List Token} (h : x ∈ (renderAll c ms).1) : x.1 ∈ ms := by
  have mem : x.1 ∈ (renderAll c ms).1.map Prod.fst := List.mem_map_of_mem h
  rw [map_fst_renderAll] at mem
  exact (List.mem_filter.mp mem).1

/-- A unit whose key names a trait and a type is made if the function of each member can be read by
itself. -/
theorem emit_of_reads (trait : k.NamesTrait) (named : (c.unit k []).isOk = true)
    (reads : ∀ m ∈ ms, m.Reads c) (fingerprint : String) :
    ∃ entry, emit c k ms fingerprint = .ok entry := by
  obtain ⟨tokens, assembled⟩ := isOk_iff.mp named
  obtain ⟨path, name, found, named, -⟩ := unit_eq_ok.mp assembled
  let members := (renderAll c ms).1.map Prod.snd
  have written : ∀ x ∈ (renderAll c ms).1, c.member x.1 = .ok x.2 := fun x mem =>
    member_of_mem_renderAll mem
  let whole := attributeTokens (attributeBodies k) ++ (structTokens name ++
    implTokens path.tokens name members.flatten)
  have larger : sizeList members.flatten < sizeList whole := by
    simp only [whole, implTokens, inBraces, grouped, sizeList_append, sizeList, size]
    omega
  obtain ⟨n, enough⟩ : ∃ n, depth whole = n + 4 := ⟨8 * sizeList whole + 60, rfl⟩
  refine isOk_iff.mp (isOk_emit_iff.mpr
    ⟨whole, unit_eq_ok.mpr ⟨path, name, found, named, rfl⟩, ?_⟩)
  refine isOk_readFileTokens (trait path found) (notMem_reservedWords_of_unitName named)
    (ahead_number_sign_members written) enough ?_ ?_
  · intro body mem
    simp only [attributeBodies, List.mem_cons, List.not_mem_nil, or_false] at mem
    rcases mem with rfl | rfl
    · exact readsAttribute_doc n _
    · exact readsAttribute_derive _
  · intro ts mem
    obtain ⟨x, kept, rfl⟩ := List.mem_map.mp mem
    have fits : depth x.2 ≤ n + 3 := by
      have smaller := sizeList_le_of_mem mem
      rw [depth] at enough ⊢
      omega
    obtain ⟨row, alone⟩ := isOk_iff.mp
      (reads x.1 (mem_of_mem_renderAll kept) x.2 (written x kept) (n + 3) fits)
    obtain ⟨w, -, ps, body, -, -, tokens⟩ := exists_functionTokens (written x kept)
    rw [tokens] at alone ⊢
    exact ⟨by simp [functionTokens, signatureTokens, ident], readsOff_implMember alone⟩

def genericPaths : AcceptedGenerator :=
  .ofConfiguration { evaluator := "Engine<f64, 'static>", runtime := "rt::<u8>::core" }
    (by decide +kernel)

/-- A method with keywords as names, of which one parameter has no placeholder. -/
def keywordCandidate : Candidate where
  container := "Law"
  scope := "crate::shapes::<u8>"
  name := "fn"
  receiver := some .exclusive
  parameters := [⟨"self_", "& 'a mut [Vec < (f64 , u8) > ; 3]"⟩,
    ⟨"type", "Box < dyn Fn (f64) -> f64 + Send + 'static >"⟩,
    ⟨"result", "< Mass as Unit < 2 > > :: Scale"⟩]
  template := some "[self_] + \"[type]\""
  fixedShape := true

end SourceUnit

end FormulaBinding
