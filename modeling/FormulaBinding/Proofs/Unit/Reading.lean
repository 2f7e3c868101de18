import FormulaBinding.Proofs.Generation.Acceptance
import FormulaBinding.Proofs.Grammar.Implementations
import FormulaBinding.Proofs.Unit.Functions
import FormulaBinding.Proofs.Unit.Naming

/-!
# Reading units again

The tokens of a unit in a module, where they make up a file, are the declaration of its type and one
implementation of the trait for it. The functions of the implementation are the members of the unit,
each with its name, its receiver and the names of its parameters.
-/

namespace FormulaBinding

namespace Grammar
open FormulaBinding.Parser FormulaBinding.Token FormulaBinding.Lexer

variable {n : Nat} {w : String} {ws : List String} {r : Option Receiver} {f q : Phrase}

/-! ## Phrases that are written -/

theorem isSome_kind?_writeTo (p : Phrase) :
    (writeTo n {} p).kind?.isSome = p.kind?.isSome := by
  cases n with
  | zero => rfl
  | succ n =>
    cases p with
    | token t => rw [writeTo_token]
    | group d parts o c => rw [writeTo_group]; rfl
    | node l parts =>
      rw [writeTo, writeIn, encloses_alone, if_neg Bool.false_ne_true, writeInside]
      split <;> rfl

theorem rolesOf_map_writeTo (ps : List Phrase) :
    Phrase.rolesOf (ps.map (writeTo n {})) = (Phrase.rolesOf ps).map (writeTo n {}) := by
  rw [Phrase.rolesOf, Phrase.rolesOf, List.filter_map]
  congr 2
  funext p
  exact isSome_kind?_writeTo p

theorem writeTo_pathType (ts : List Token) : writeTo n {} (pathType ts) = pathType ts :=
  writeTo_of_forall (by decide) (fun q mem => by rw [List.mem_singleton.mp mem]; rfl)
    fun q mem m => by rw [List.mem_singleton.mp mem, writeTo_wordPath]

theorem writeTo_wordPattern (w : String) (e : Extent) :
    writeTo n {} (wordPattern w e) = wordPattern w e :=
  writeTo_of_tokens (by decide) fun q mem => ⟨_, List.mem_singleton.mp mem⟩

theorem writeTo_receiverPhrase (r : Receiver) :
    writeTo n {} (receiverPhrase r) = receiverPhrase r :=
  writeTo_of_tokens (by decide) fun q mem => by
    obtain ⟨t, -, rfl⟩ := List.mem_map.mp mem
    exact ⟨t, rfl⟩

theorem writeTo_resultPhrase : writeTo n {} resultPhrase = resultPhrase := by
  refine writeTo_of_forall (by decide) (fun q mem => ?_) fun q mem m => ?_
  all_goals
    simp only [List.mem_cons, List.not_mem_nil, or_false] at mem
    rcases mem with rfl | rfl | rfl
  all_goals first | rfl | exact writeTo_token _ | exact writeTo_pathType _

theorem exists_writeTo_signaturePhrase (n : Nat) (w : String) (content : List Phrase) :
    ∃ m, writeTo n {} (signaturePhrase w content) =
      signaturePhrase w (content.map (writeTo m {})) := by
  cases n with
  | zero => exact ⟨0, by rw [map_writeTo_zero]; rfl⟩
  | succ n =>
    refine ⟨n - 1, ?_⟩
    have name : writeTo n {} (.node .itemName [.token (.name w Extent.nowhere)]) =
        .node .itemName [.token (.name w Extent.nowhere)] :=
      writeTo_of_tokens (by decide) fun q mem => ⟨_, List.mem_singleton.mp mem⟩
    rw [signaturePhrase, writeTo_succ_node (by decide), attributesFirst_of_forall (by
      simp [Phrase.is, Phrase.kind?, resultPhrase])]
    simp only [List.map_cons, List.map_nil, writeTo_token, name, writeTo_group,
      writeTo_resultPhrase]
    rfl

theorem exists_writeTo_functionPhrase (n : Nat) (w : String) (content statements : List Phrase) :
    ∃ m m', writeTo n {} (functionPhrase w content statements) =
      functionPhrase w (content.map (writeTo m {})) (statements.map (writeTo m' {})) := by
  cases n with
  | zero => exact ⟨0, 0, by rw [map_writeTo_zero, map_writeTo_zero]; rfl⟩
  | succ n =>
    obtain ⟨m, signature⟩ := exists_writeTo_signaturePhrase n w content
    refine ⟨m, n - 1, ?_⟩
    rw [functionPhrase, writeTo_succ_node (by decide), attributesFirst_of_forall (by
      simp [Phrase.is, Phrase.kind?, signaturePhrase])]
    simp only [List.map_cons, List.map_nil, signature, writeTo_group]
    rfl

theorem exists_writeTo_implPhrase (n : Nat) (path : List Token) (name : String)
    (members : List Phrase) : ∃ m, writeTo n {} (implPhrase (wordPath path) name members) =
      implPhrase (wordPath path) name (members.map (writeTo m {})) := by
  cases n with
  | zero => exact ⟨0, by rw [map_writeTo_zero]; rfl⟩
  | succ n =>
    refine ⟨n - 1, ?_⟩
    rw [implPhrase, ← pathType, writeTo_succ_node (by decide), attributesFirst_of_forall (by
      simp [Phrase.is, Phrase.kind?, pathType])]
    simp only [List.map_cons, List.map_nil, writeTo_token, writeTo_pathType, writeTo_group]
    rfl

/-! ## Functions -/

theorem IsInputOf.writeTo (h : IsInputOf w q) (n : Nat) : IsInputOf w (writeTo n {} q) := by
  obtain ⟨e, e', parts, type, rfl, own⟩ := h
  have same : ∃ parts', Grammar.writeTo n {} (.node .parameter parts) = .node .parameter parts' := by
    cases n with
    | zero => exact ⟨parts, rfl⟩
    | succ n => exact ⟨_, writeTo_succ_node (by decide)⟩
  obtain ⟨parts', same⟩ := same
  have written := filter_own_parts_writeTo (l := .parameter) (n := n) (by decide) parts
  rw [same, own, List.map_cons, List.map_cons, writeTo_wordPattern, writeTo_token] at written
  exact ⟨e, e', parts', _, same, written⟩

/-- Whether a phrase is a function with a name, a receiver and parameters of some names. -/
def IsFunctionOf (w : String) (r : Option Receiver) (ws : List String) (f : Phrase) : Prop :=
  ∃ content statements qs, f = functionPhrase w content statements ∧
    Phrase.rolesOf content = (r.map receiverPhrase).toList ++ qs ∧ List.Forall₂ IsInputOf ws qs

theorem IsFunctionOf.writeTo (h : IsFunctionOf w r ws f) (n : Nat) :
    IsFunctionOf w r ws (writeTo n {} f) := by
  obtain ⟨content, statements, qs, rfl, roles, inputs⟩ := h
  obtain ⟨m, m', same⟩ := exists_writeTo_functionPhrase n w content statements
  refine ⟨_, _, qs.map (Grammar.writeTo m {}), same, ?_, ?_⟩
  · rw [rolesOf_map_writeTo, roles, List.map_append]
    cases r with
    | none => rfl
    | some r => exact congrArg (· :: _) (writeTo_receiverPhrase r)
  · exact List.forall₂_map_right_iff.mpr (inputs.imp fun w q h => h.writeTo m)

/-- Whether a declaration has a name, a receiver and the names of parameters as they are stored, and
returns a number. -/
structure IsDeclarationOf (w : String) (r : Option Receiver) (ws : List String) (d : Declaration) :
    Prop where
  name : d.name = Identifier.stored w
  receiver : d.receiver = r
  parameters : d.parameters.map Parameter.name = ws.map Identifier.stored
  returnType : d.returnType = "f64"
  fixedShape : d.fixedShape = true

theorem IsInputOf.is_parameter (h : IsInputOf w q) (k : Kind) : q.is k = (Kind.parameter == k) := by
  obtain ⟨_, _, _, _, rfl, -⟩ := h
  rfl

/-- What is read of a parameter: the name that is stored, and the text of what stands behind the
colon. -/
theorem parameter?_eq {k : Kind} {e e' : Extent} {parts type : List Phrase}
    (own : parts.filter (!Phrase.is .outerAttribute ·) =
      wordPattern w e :: .token (.mark ':' false e') :: type) (free : w ∉ reservedWords) :
    Source.parameter? (.node k parts) =
      some ⟨Identifier.stored w, textList (Phrase.tokensList type)⟩ := by
  have other {v : String} (reserved : v ∈ reservedWords) :
      Phrase.isWord v (.token (.name w e)) = false := by
    have ne : w ≠ v := by
      rintro rfl
      exact free reserved
    simpa [Phrase.isWord, Phrase.word?] using ne
  have bound : Source.boundName? (wordPattern w e) = some (Identifier.stored w) := by
    have role : (wordPattern w e).is .namePattern = true := rfl
    have noAt : (wordPattern w e).hasMark '@' = false := rfl
    have noRef : (wordPattern w e).hasWord "ref" = false := by
      simp [wordPattern, Phrase.hasWord, Phrase.parts, other (v := "ref") (by decide)]
    rw [Source.boundName?, role, noAt, noRef]
    simp [wordPattern, Phrase.parts, other (v := "mut") (by decide), Phrase.word?]
  rw [Source.parameter?, Phrase.parts, own]
  simp only [bound, Option.map_some]

theorem IsInputOf.exists_parameter? (h : IsInputOf w q) (free : w ∉ reservedWords) :
    ∃ p, Source.parameter? q = some p ∧ p.name = Identifier.stored w := by
  obtain ⟨e, e', parts, type, rfl, own⟩ := h
  exact ⟨_, parameter?_eq own free, rfl⟩

theorem names_parameters {qs : List Phrase} (h : List.Forall₂ IsInputOf ws qs)
    (free : ∀ w ∈ ws, w ∉ reservedWords) :
    (qs.filterMap Source.parameter?).map Parameter.name = ws.map Identifier.stored := by
  induction h with
  | nil => rfl
  | @cons w q ws qs first _ ih =>
    obtain ⟨p, read, name⟩ := first.exists_parameter? (free w List.mem_cons_self)
    rw [List.filterMap_cons_some read, List.map_cons, List.map_cons, name,
      ih fun v mem => free v (List.mem_cons_of_mem w mem)]

theorem is_parameter_of_forall₂ {qs : List Phrase} (h : List.Forall₂ IsInputOf ws qs) (k : Kind) :
    ∀ q ∈ qs, q.is k = (Kind.parameter == k) := by
  intro q mem
  obtain ⟨w, -, isInput⟩ := exists_of_mem_forall₂ h mem
  exact isInput.is_parameter k

theorem filter_receiver_inputs {qs : List Phrase} (h : List.Forall₂ IsInputOf ws qs) :
    qs.filter (Phrase.is .receiver) = [] := by
  rw [List.filter_eq_nil_iff]
  intro q mem
  rw [is_parameter_of_forall₂ h .receiver q mem]
  decide

theorem parameters_functionPhrase {content statements qs : List Phrase}
    (roles : Phrase.rolesOf content = (r.map receiverPhrase).toList ++ qs)
    (all : ∀ q ∈ qs, q.is .parameter = true) (imports : Imports) (scope container : String)
    (modifiers : Modifiers) (plain : Bool) :
    (Source.declaration imports scope container modifiers plain
      (functionPhrase w content statements)).parameters = qs.filterMap Source.parameter? := by
  have same : Source.inputs (signaturePhrase w content) = (r.map receiverPhrase).toList ++ qs := roles
  have child : (functionPhrase w content statements).child? .signature =
      some (signaturePhrase w content) := rfl
  have none : (r.map receiverPhrase).toList.filter (Phrase.is .parameter) = [] := by cases r <;> rfl
  rw [Source.declaration, child, Option.getD_some, same]
  dsimp only
  rw [List.filter_append, none, List.nil_append, List.filter_eq_self.mpr all]

/-- A generated function has a shape that can be repeated. -/
theorem isPlain_signaturePhrase {content qs : List Phrase}
    (roles : Phrase.rolesOf content = (r.map receiverPhrase).toList ++ qs)
    (h : List.Forall₂ IsInputOf ws qs) (free : ∀ w ∈ ws, w ∉ reservedWords) :
    Source.isPlain (signaturePhrase w content) = true := by
  have same : Source.inputs (signaturePhrase w content) = (r.map receiverPhrase).toList ++ qs := roles
  rw [Source.isPlain, same, Bool.and_eq_true]
  refine ⟨rfl, ?_⟩
  rw [List.all_append, Bool.and_eq_true]
  constructor
  · cases r with
    | none => rfl
    | some r => cases r <;> rfl
  · rw [List.all_eq_true]
    intro q mem
    obtain ⟨v, inside, isInput⟩ := exists_of_mem_forall₂ h mem
    obtain ⟨p, read, -⟩ := isInput.exists_parameter? (free v inside)
    rw [isInput.is_parameter, isInput.is_parameter, read]
    rfl

/-- The rules for declarations read a function with its name, receiver and parameters. -/
theorem IsFunctionOf.declaration (h : IsFunctionOf w r ws f) (free : ∀ w ∈ ws, w ∉ reservedWords)
    (imports : Imports) (scope container : String) (modifiers : Modifiers) :
    IsDeclarationOf w r ws (Source.declaration imports scope container modifiers true f) := by
  obtain ⟨content, statements, qs, rfl, roles, inputs⟩ := h
  have same : Source.inputs (signaturePhrase w content) = (r.map receiverPhrase).toList ++ qs := roles
  have child : (functionPhrase w content statements).child? .signature =
      some (signaturePhrase w content) := rfl
  constructor
  case name => rfl
  case receiver =>
    rw [Source.declaration, child, Option.getD_some, same]
    simp only [List.filter_append, filter_receiver_inputs inputs, List.append_nil]
    cases r with
    | none => rfl
    | some r => cases r <;> rfl
  case parameters =>
    rw [parameters_functionPhrase roles (is_parameter_of_forall₂ inputs .parameter)]
    exact names_parameters inputs free
  case returnType => rfl
  case fixedShape => exact isPlain_signaturePhrase roles inputs free

variable {c d : Cursor} {u : Unit} {body us : List Token}

theorem isFunctionOf_of_implMember {ps : List (String × List Token)}
    (all : ∀ p ∈ ps, p.1 ∉ reservedWords ∧ AreCalm p.2)
    (rest : c.rest = functionTokens w
      (RenderContext.receiver r ++ commaSeparated (ps.map inputTokens)) body ++ us)
    (h : implMember (reader (n + 1)) c = .ok (u, d)) :
    d.rest = us ∧ ∃ f, d.row = f :: c.row ∧ IsFunctionOf w r (ps.map Prod.fst) f := by
  obtain ⟨-, content, final, read, -, rfl⟩ := (implMember_eq_ok rest).mp h
  obtain ⟨-, qs, roles, inputs⟩ := parameters_eq_ok all rfl rfl read
  exact ⟨rfl, _, rfl, _, _, qs, rfl, roles, inputs⟩

/-! ## Files -/

variable {name : String} {P : List Token} {bodies : List (List Token)}

/-- The tokens of a type with an implementation are read as these two declarations. -/
theorem readFileTokens_eq_ok {parts : List Phrase} (path : ReadsPathType P parts)
    (first : HasHead P) (free : name ∉ reservedWords) (plain : Ahead.mark "#" body = false)
    {items : List Phrase} (h : readFileTokens (attributeTokens bodies ++
      (structTokens name ++ implTokens P name body)) = .ok items) :
    ∃ n attributes members, AreMembersOf (n + 1) body members ∧
      (∀ q ∈ attributes, q.is .outerAttribute = true) ∧
      items = [written (structPhrase attributes name),
        written (implPhrase (.node .path parts) name members)] := by
  obtain ⟨⟨_, row⟩, whole, h⟩ := bind_eq_ok.mp h
  cases h
  obtain ⟨d, run, -, clear, rfl⟩ := runAll_eq_ok.mp whole
  obtain ⟨n, enough⟩ : ∃ n, depth (attributeTokens bodies ++
      (structTokens name ++ implTokens P name body)) = n + 2 := ⟨_, rfl⟩
  have fits : depth P ≤ n := by
    simp only [depth, implTokens, ident, sizeList_append, sizeList, size] at enough ⊢
    omega
  rw [enough] at run
  have noInner := innerAttributes_run (reader (n + 2)) (c := ⟨attributeTokens bodies ++
    (structTokens name ++ implTokens P name body), none, none, []⟩)
    (by cases bodies <;> rfl)
  dsimp only at run
  rw [run_bind_of_ok noInner] at run
  have each : ∀ x ∈ [(attributeTokens bodies ++ structTokens name, fun q => ∃ attributes,
      (∀ q ∈ attributes, q.is .outerAttribute = true) ∧ q = structPhrase attributes name),
      (implTokens P name body, fun q => ∃ members,
        AreMembersOf (n + 1) body members ∧ q = implPhrase (.node .path parts) name members)],
      x.1 ≠ [] ∧ ∀ {c d : Cursor} {us : List Token}, c.rest = x.1 ++ us → d.leftover = none →
        item (reader (n + 1)) c = .ok ((), d) → d.rest = us ∧ ∃ q, d.row = q :: c.row ∧ x.2 q := by
    intro x mem
    simp only [List.mem_cons, List.not_mem_nil, or_false] at mem
    rcases mem with rfl | rfl
    · refine ⟨by simp [structTokens, names], fun rest clear run => ?_⟩
      rw [List.append_assoc] at rest
      obtain ⟨left, attributes, own, row⟩ := item_struct_eq_ok rest clear run
      exact ⟨left, _, row, attributes, own, rfl⟩
    · refine ⟨by simp [implTokens, ident], fun rest clear run => ?_⟩
      obtain ⟨left, members, hold, row⟩ :=
        item_impl_eq_ok path first free fits plain rest clear run
      exact ⟨left, _, row, members, hold, rfl⟩
  obtain ⟨-, qs, row, read⟩ := untilEnd_eq_ok Prod.fst (p := item (reader (n + 1)))
    (R := fun (x : List Token × (Phrase → Prop)) q => x.2 q) each clear (by simp) run
  cases read with
  | cons struct read =>
    cases read with
    | cons impl read =>
      cases read
      obtain ⟨attributes, own, rfl⟩ := struct
      obtain ⟨members, hold, rfl⟩ := impl
      refine ⟨n, attributes, members, hold, own, ?_⟩
      rw [row]
      simp

end Grammar

open Grammar

theorem Identifier.Spells.notMem_reservedWords {words names : List String}
    (h : Identifier.Spells words names) : ∀ w ∈ words, w ∉ reservedWords := by
  intro w mem
  have ok : .ok w ∈ names.map Identifier.written := h ▸ List.mem_map_of_mem mem
  obtain ⟨name, -, written⟩ := List.mem_map.mp ok
  exact Identifier.notMem_reservedWords_of_written written

/-! ## Members -/

/-- Whether a function has the name, the receiver and the names of the parameters of a member. -/
def Member.IsWrittenAs (m : Member) (f : Phrase) : Prop :=
  ∃ w ws, Identifier.written m.name = .ok w ∧
    Identifier.Spells ws (m.parameters.map Parameter.name) ∧ IsFunctionOf w m.receiver ws f

/-- Whether the rules for declarations read a function as one with the name, the receiver and the
names of the parameters of a member, as each is written, that returns a number. -/
def Member.IsReadFrom (m : Member) (f : Phrase) : Prop :=
  ∃ w ws, Identifier.written m.name = .ok w ∧
    Identifier.Spells ws (m.parameters.map Parameter.name) ∧ f.is .functionItem = true ∧
    ∀ imports scope container modifiers, IsDeclarationOf w m.receiver ws
      (Source.declaration imports scope container modifiers true f)

theorem Member.IsWrittenAs.isReadFrom {m : Member} {f : Phrase} (h : m.IsWrittenAs f) (n : Nat) :
    m.IsReadFrom (writeTo n {} f) := by
  obtain ⟨w, ws, name, parameters, isFunction⟩ := h
  have written := isFunction.writeTo n
  refine ⟨w, ws, name, parameters, ?_, fun imports scope container modifiers =>
    written.declaration parameters.notMem_reservedWords imports scope container modifiers⟩
  obtain ⟨_, _, _, same, -, -⟩ := written
  rw [same]
  rfl

/-- Whether tokens are those of the type of a parameter. -/
def Parameter.HasTokens (x : Parameter) (ts : List Token) : Prop :=
  ∃ type, readType x.type = .ok type ∧ type.tokens = ts

theorem Parameter.HasTokens.areCalm {x : Parameter} {ts : List Token} (h : x.HasTokens ts) :
    Token.AreCalm ts := by
  obtain ⟨type, read, rfl⟩ := h
  exact areCalm_of_readType read

/-- Whether a parameter is written with a name and the tokens of its type. -/
structure Parameter.IsWrittenWith (x : Parameter) (p : String × List Token) : Prop where
  name : Identifier.written x.name = .ok p.1
  type : x.HasTokens p.2

theorem Parameter.spells {xs : List Parameter} {ps : List (String × List Token)}
    (h : List.Forall₂ IsWrittenWith xs ps) :
    Identifier.Spells (ps.map Prod.fst) (xs.map name) := by
  induction h with
  | nil => rfl
  | cons first _ ih =>
    rw [Identifier.Spells, List.map_cons, List.map_cons, List.map_cons, List.map_cons, first.name,
      ih]

namespace RenderContext
open Token

variable {c : RenderContext} {k : UnitKey} {m : Member}

theorem exists_inputTokens {xs : List Parameter} {tss : List (List Token)}
    (h : xs.mapM (parameter m) = .ok tss) : ∃ ps : List (String × List Token),
      tss = ps.map inputTokens ∧ List.Forall₂ Parameter.IsWrittenWith xs ps := by
  induction xs generalizing tss with
  | nil =>
    cases h
    exact ⟨[], rfl, .nil⟩
  | cons x xs ih =>
    rw [List.mapM_cons] at h
    obtain ⟨ts, head, h⟩ := bind_eq_ok.mp h
    obtain ⟨tss, tail, h⟩ := bind_eq_ok.mp h
    cases h
    obtain ⟨w, name, head⟩ := bind_eq_ok.mp head
    obtain ⟨type, read, head⟩ := bind_eq_ok.mp head
    cases head
    obtain ⟨ps, rfl, each⟩ := ih tail
    exact ⟨(w, type.tokens) :: ps, rfl,
      .cons ⟨mapError_eq_ok.mp name, type, mapError_eq_ok.mp read, rfl⟩ each⟩

/-- A member that is written is a function with its name, receiver and parameters, whose body is
made up of its statements. -/
theorem exists_functionParts {tokens : List Token} (h : c.member m = .ok tokens) :
    ∃ (w : String) (ps : List (String × List Token)) (statements : List (List Token)),
      Identifier.written m.name = .ok w ∧
      List.Forall₂ Parameter.IsWrittenWith m.parameters ps ∧
      m.body.mapM c.statement = .ok statements ∧ tokens = functionTokens w
        (receiver m.receiver ++ commaSeparated (ps.map inputTokens)) statements.flatten := by
  obtain ⟨w, name, h⟩ := bind_eq_ok.mp h
  obtain ⟨tss, parameters, h⟩ := bind_eq_ok.mp h
  obtain ⟨statements, body, h⟩ := bind_eq_ok.mp h
  obtain ⟨ps, rfl, each⟩ := exists_inputTokens parameters
  cases h
  refine ⟨w, ps, statements, mapError_eq_ok.mp name, each, mapError_eq_ok.mp body, ?_⟩
  simp [functionTokens, signatureTokens]

theorem exists_functionTokens {tokens : List Token} (h : c.member m = .ok tokens) :
    ∃ w, Identifier.written m.name = .ok w ∧ ∃ (ps : List (String × List Token)) (body : List Token),
      Identifier.Spells (ps.map Prod.fst) (m.parameters.map Parameter.name) ∧
      (∀ p ∈ ps, AreCalm p.2) ∧ tokens = functionTokens w
        (receiver m.receiver ++ commaSeparated (ps.map inputTokens)) body := by
  obtain ⟨w, ps, statements, name, each, -, rfl⟩ := exists_functionParts h
  refine ⟨w, name, ps, statements.flatten, Parameter.spells each, fun p mem => ?_, rfl⟩
  obtain ⟨x, -, written⟩ := exists_of_mem_forall₂ each mem
  exact written.type.areCalm

theorem member_of_mem_renderAll {ms : List Member} {x : Member × List Token}
    (h : x ∈ (SourceUnit.renderAll c ms).1) : c.member x.1 = .ok x.2 := by
  induction ms with
  | nil => cases h
  | cons m ms ih =>
    cases written : c.member m with
    | error e =>
      rw [SourceUnit.renderAll_of_error written] at h
      exact ih h
    | ok tokens =>
      rw [SourceUnit.renderAll_of_ok written] at h
      rcases List.mem_cons.mp h with rfl | h
      · exact written
      · exact ih h

/-- What is read between the braces of an implementation is its members, one by one. -/
theorem isWrittenAs_of_areMembersOf {n : Nat} {kept : List (Member × List Token)}
    (all : ∀ x ∈ kept, c.member x.1 = .ok x.2) {members : List Phrase}
    (h : AreMembersOf (n + 1) (kept.map Prod.snd).flatten members) :
    List.Forall₂ (fun x f => x.1.IsWrittenAs f) kept members := by
  obtain ⟨start, content, begins, empty, read, clear, rfl⟩ := h
  obtain ⟨-, qs, row, each⟩ := Grammar.untilEnd_eq_ok Prod.snd
    (R := fun (x : Member × List Token) f => x.1.IsWrittenAs f) (fun x mem => by
      obtain ⟨w, name, ps, body, spells, calm, tokens⟩ := exists_functionTokens (all x mem)
      refine ⟨by simp [tokens, functionTokens, signatureTokens, ident], fun rest _ run => ?_⟩
      have free : ∀ p ∈ ps, p.1 ∉ reservedWords ∧ AreCalm p.2 := fun p inside =>
        ⟨spells.notMem_reservedWords p.1 (List.mem_map_of_mem inside), calm p inside⟩
      obtain ⟨left, f, row, isFunction⟩ := isFunctionOf_of_implMember free (tokens ▸ rest) run
      exact ⟨left, f, row, w, _, name, spells, isFunction⟩) clear begins read
  rw [row, empty, List.append_nil, List.reverse_reverse]
  exact each

/-! ## Units -/

theorem notMem_reservedWords_of_unitName {name : String} (h : c.unitName k = .ok name) :
    name ∉ reservedWords := by
  have h := mapError_eq_ok.mp h
  cases read : readName (k.container ++ c.suffix) with
  | error e =>
    rw [read] at h
    cases h
  | ok p =>
    rw [read] at h
    obtain ⟨w, e, rfl, free⟩ := Identifier.exists_of_readName read
    cases h
    exact free

end RenderContext

/-- Whether the module path of a key consists of names behind a word that a type may start with. -/
def UnitKey.IsInModule (k : UnitKey) : Prop :=
  ∃ root modules, Text.IsWord root.toList ∧ IsRoot root ∧ (∀ w ∈ modules, IsModuleName w) ∧
    k.scope = Source.modulePath root modules

namespace RenderContext
open Token Lexer

variable {c : RenderContext} {k : UnitKey}

theorem exists_wordPath (inside : k.IsInModule) {p : Phrase} (h : traitPath k = .ok p) :
    ∃ root e modules ts, IsRoot root ∧ (∀ w ∈ modules, IsSegment w) ∧ AreSegments modules ts ∧
      p = wordPath (.name root e :: ts) := by
  obtain ⟨root, modules, word, first, names, path⟩ := inside
  have name := Identifier.isName_of_isPlain (isPlain_of_traitPath h)
  have all : ∀ w ∈ modules ++ [k.container], IsModuleName w := by
    intro w mem
    rcases List.mem_append.mp mem with mem | mem
    · exact names w mem
    · exact .inl (List.mem_singleton.mp mem ▸ name)
  obtain ⟨e, ts, segments, read⟩ := readPath_modulePath word first.isSegment all
  have whole : k.scope ++ "::" ++ k.container = Source.modulePath root (modules ++ [k.container]) := by
    rw [Source.modulePath_concat, path]
  rw [traitPath] at h
  split_ifs at h
  rw [whole, read] at h
  cases h
  exact ⟨root, e, _, ts, first, fun w mem => isSegment_of_isModuleName (all w mem), segments, rfl⟩

/-- The attributes of a generated type: a text and what is derived. -/
def attributeBodies (k : UnitKey) : List (List Token) :=
  [ident "doc" ++ op "=" ++ quoted (documentation k), ident "derive" ++
    inParens (commaSeparated (["Debug", "Clone", "Copy", "Default"].map ident))]

/-- The tokens of a unit are those of a type with attributes and of one implementation. -/
theorem unit_eq_ok {tss : List (List Token)} {tokens : List Token} :
    c.unit k tss = .ok tokens ↔ ∃ trait name, traitPath k = .ok trait ∧
      c.unitName k = .ok name ∧ tokens = attributeTokens (attributeBodies k) ++
        (structTokens name ++ implTokens trait.tokens name tss.flatten) := by
  have layout (trait : Phrase) (name : String) :
      op "#" ++ inBrackets (ident "doc" ++ op "=" ++ quoted (documentation k)) ++ op "#" ++
        inBrackets (ident "derive" ++ inParens (commaSeparated
          (["Debug", "Clone", "Copy", "Default"].map ident))) ++
        names ["pub", "struct", name] ++ op ";" ++ ident "impl" ++ trait.tokens ++
        names ["for", name] ++ inBraces tss.flatten =
      attributeTokens (attributeBodies k) ++
        (structTokens name ++ implTokens trait.tokens name tss.flatten) := by
    simp [attributeTokens, attributeBodies, structTokens, implTokens]
  constructor
  · intro h
    obtain ⟨trait, path, h⟩ := bind_eq_ok.mp h
    obtain ⟨name, named, h⟩ := bind_eq_ok.mp h
    cases h
    exact ⟨trait, name, path, named, layout trait name⟩
  · rintro ⟨trait, name, path, named, rfl⟩
    refine bind_eq_ok.mpr ⟨trait, path, bind_eq_ok.mpr ⟨name, named, ?_⟩⟩
    rw [← layout]
    rfl

theorem ahead_number_sign_members {kept : List (Member × List Token)}
    (all : ∀ x ∈ kept, c.member x.1 = .ok x.2) :
    Ahead.mark "#" (kept.map Prod.snd).flatten = false := by
  cases kept with
  | nil => rfl
  | cons x kept =>
    obtain ⟨w, -, ps, body, -, -, tokens⟩ := exists_functionTokens (all x List.mem_cons_self)
    rw [List.map_cons, List.flatten_cons, tokens]
    rfl

end RenderContext

namespace SourceUnit
open RenderContext

theorem writtenName_structPhrase {attributes : List Phrase} (name : String)
    (own : ∀ q ∈ attributes, q.is .outerAttribute = true) :
    Source.writtenName (written (structPhrase attributes name)) = name := by
  have none : attributes.find? (Phrase.is .itemName) = none := by
    rw [List.find?_eq_none]
    intro q mem
    have role := own q mem
    rw [Phrase.is, beq_iff_eq] at role
    rw [Phrase.is, role]
    decide
  have child : (written (structPhrase attributes name)).child? .itemName =
      some (.node .itemName [.token (.name name Extent.nowhere)]) := by
    rw [written, structPhrase, child?_writeTo (by decide) (by decide) (by decide) (by decide),
      Phrase.child?, Phrase.parts, List.find?_append, none]
    exact congrArg some (writeTo_of_tokens (by decide) fun q mem => ⟨_, List.mem_singleton.mp mem⟩)
  rw [Source.writtenName, child]
  rfl

/-- A member whose name and whose second parameter's name are keywords. -/
def keywordMember : Member where
  container := "Law"
  scope := "crate"
  name := "fn"
  receiver := some .shared
  parameters := [⟨"x", "Vec<[f64; 2]>"⟩, ⟨"type", "f64"⟩]
  body := [.discard "x", .discard "type", .noExpression]

end SourceUnit

end FormulaBinding
