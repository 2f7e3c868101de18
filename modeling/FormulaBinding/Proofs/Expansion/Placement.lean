import FormulaBinding.Proofs.Declaration.Prelude
import FormulaBinding.Proofs.Expansion.Accounting

/-!
# Where reports point

A report names what it is about by a text that ends with the name of a method or of the trait. It
points at the first method with that name, and at the trait if there is none. So a report about a
method points at that method unless an earlier one has the same name, and a report about the unit of
the trait points at the trait unless a method has the trait's name.
-/

namespace FormulaBinding

namespace Text

variable {scope name : String}

theorem lastSegment_eq (path : String) : lastSegment path = (Imports.splitPath path).2 := by
  rw [lastSegment, Imports.splitPath]
  cases splitLastColons? path.toList <;> rfl

theorem lastSegment_within (free : ':' ∉ name.toList) :
    lastSegment (scope ++ "::" ++ name) = name := by
  rw [lastSegment_eq, Imports.splitPath_within free]

theorem lastSegment_alone (free : ':' ∉ name.toList) : lastSegment name = name := by
  rw [lastSegment_eq, Imports.splitPath_alone free]

theorem colon_notMem_of_isName (h : IsName name) : ':' ∉ name.toList := colon_notMem_of_isWord h.1

end Text

theorem Identifier.colon_notMem_stored {w : String} (h : Text.IsName w) :
    ':' ∉ (stored w).toList := by
  rcases h.1 with plain | ⟨v, raw, plain, -⟩
  · rw [stored_of_isPlainWord plain]
    exact Text.colon_notMem_of_isName h
  · rw [stored_of_raw raw, String.toList_ofList]
    exact Text.colon_notMem_of_isWord (.inl plain)

theorem UnitKey.lastSegment_text {k : UnitKey} (h : Text.IsName k.container) :
    Text.lastSegment k.text = k.container := by
  have free := Text.colon_notMem_of_isName h
  have some : k.container ≠ "" := by
    obtain ⟨c, cs, same, -⟩ := Lexer.exists_cons_of_isWord h.1
    intro empty
    rw [empty] at same
    cases same
  rw [text, if_neg some]
  split_ifs
  · exact Text.lastSegment_alone free
  · exact Text.lastSegment_within free

namespace Binding
open Grammar

/-- What a problem is about: a method, the unit of the trait, or the trait itself. -/
inductive Subject where
  | method (f : Phrase)
  | unit
  | trait

/-- A problem of an expansion, before it gets a place. -/
structure Problem where
  subject : Subject
  severity : Severity
  message : String

def Problem.ofDiagnostic (s : Subject) (d : Diagnostic) : Problem := ⟨s, d.severity, d.text⟩

variable (b : Binding)

/-- The rule that a marked method breaks. -/
def refusal? (f : Phrase) : Option Rejection :=
  if b.isMarked (b.declarationOf f) then
    Declaration.rejection? b.generator.configuration.marker (b.declarationOf f)
  else none

/-- The problem of a marked method that breaks a rule. -/
def refused? (f : Phrase) : Option Problem :=
  (b.refusal? f).map fun r => {
    subject := .method f
    severity := .error
    message := s!"`{(b.declarationOf f).name}` cannot receive a generated body: {r.message}" }

def eligible : List Phrase :=
  (Source.functions b.trait).filter fun f =>
    (Declaration.rejection? b.generator.configuration.marker (b.declarationOf f)).isNone

def candidateOf (f : Phrase) : Candidate :=
  (b.declarationOf f).candidate b.generator.configuration.marker

/-- What is wrong with an eligible method by itself. -/
def complaint? (f : Phrase) : Option Problem :=
  (b.generator.complaint? (b.candidateOf f)).map (.ofDiagnostic (.method f))

/-- The problem of an eligible method whose member is left out. -/
def skipped? (f : Phrase) : Option Problem :=
  (b.generator.context.skip? (b.generator.memberOf (b.candidateOf f))).map
    (.ofDiagnostic (.method f))

def key : UnitKey := ⟨b.scope, Source.writtenName b.trait⟩

/-- The unit of the eligible methods, or why there is none. -/
def unit : Except EmissionError UnitEntry :=
  SourceUnit.emit b.generator.context b.key
    (b.eligible.map fun f => b.generator.memberOf (b.candidateOf f))
    (fingerprint b.generator.configuration (b.eligible.map b.candidateOf))

def findings : List Problem :=
  if b.eligible.isEmpty then
    [.ofDiagnostic .trait (Diagnostic.noCandidates b.generator.configuration.marker.text)]
  else
    b.eligible.filterMap b.complaint? ++
      match b.unit with
      | .error e => [.ofDiagnostic .unit (Diagnostic.emission b.key e)]
      | .ok _ => b.eligible.filterMap b.skipped?

/-- The problem of a unit whose source is no text of tokens. -/
def unlexed? (u : SourceUnit) : Option Problem :=
  match tokensOf u.source with
  | .error e => some ⟨.trait, .error, s!"generated unit `{u.fileName}` does not lex: {e.message}"⟩
  | .ok _ => none

def unreadable? : Option Problem := b.units.findSome? unlexed?

/-- The problems of an expansion: those of methods that break rules, or else of the source of the
unit, or else of generation. -/
def problems : List Problem :=
  match (Source.functions b.trait).filterMap b.refused? with
  | [] => b.unreadable?.elim b.findings fun p => [p]
  | ps => ps

def phraseOf : Subject → Phrase
  | .method f => (f.child? .signature).getD (.node .signature [])
  | _ => b.trait

def nameOf? : Subject → Option String
  | .method f => some (b.declarationOf f).name
  | .unit => some (Source.writtenName b.trait)
  | .trait => none

def named? (name : String) : Option Phrase :=
  (Source.functions b.trait).find? fun f => (b.declarationOf f).name == name

/-- What is found where a subject is looked for by its name. -/
def target (s : Subject) : Subject :=
  (((b.nameOf? s).bind b.named?).map .method).getD .trait

def reportAt (text : String) (p : Problem) (s : Subject) : Report where
  severity := p.severity
  message := p.message
  place := (BoundTrait.namePlace (b.phraseOf s)).map (Extent.shownIn text)

variable {b : Binding}

theorem nameToken?_of_isMethod {f : Phrase} (h : IsMethod f) : ∃ w e, Text.IsName w ∧
    BoundTrait.nameToken? (b.phraseOf (.method f)) = some (.name w e) ∧
      (b.declarationOf f).name = Identifier.stored w := by
  obtain @⟨attributes, signature, body, w, e, outer, isSignature, name, isName, isBody⟩ := h
  have child := child?_method outer isSignature body
  refine ⟨w, e, isName, ?_, ?_⟩
  · rw [phraseOf, child, Option.getD_some, BoundTrait.nameToken?, name]
    rfl
  · have own : (b.declarationOf (.node .functionItem (attributes ++ [signature, body]))).name =
        Source.nameOf signature := by
      rw [declarationOf, Source.declaration, child]
      rfl
    rw [own, Source.nameOf, name]
    rfl

theorem nameToken?_of_isTrait (h : IsTrait b.trait) : ∃ w e, Text.IsName w ∧
    BoundTrait.nameToken? b.trait = some (.name w e) ∧ Source.writtenName b.trait = w := by
  generalize b.trait = p at h ⊢
  obtain @⟨front, items, o, c, w, e, -, name, isName, -⟩ := h
  refine ⟨w, e, isName, ?_, ?_⟩
  · rw [BoundTrait.nameToken?, name]
    rfl
  · rw [Source.writtenName, name]
    rfl

theorem mem_of_named? {name : String} {f : Phrase} (h : b.named? name = some f) :
    f ∈ Source.functions b.trait ∧ (b.declarationOf f).name = name := by
  rw [named?] at h
  have same := List.find?_some h
  exact ⟨List.mem_of_find?_eq_some h, beq_iff_eq.mp same⟩

theorem nameToken?_target (h : IsTrait b.trait) (s : Subject) : ∃ w e, Text.IsName w ∧
    BoundTrait.nameToken? (b.phraseOf (b.target s)) = some (.name w e) := by
  rw [target]
  cases found : (b.nameOf? s).bind b.named? with
  | none =>
    obtain ⟨w, e, isName, token, -⟩ := nameToken?_of_isTrait h
    exact ⟨w, e, isName, token⟩
  | some f =>
    obtain ⟨name, -, first⟩ := Option.bind_eq_some_iff.mp found
    obtain ⟨w, e, isName, token, -⟩ :=
      nameToken?_of_isMethod (b := b) (h.isMethod f (mem_of_named? first).1)
    exact ⟨w, e, isName, token⟩

theorem namePlace_of_isMethod {f : Phrase} (h : IsMethod f) :
    ∃ e, BoundTrait.namePlace (b.phraseOf (.method f)) = some e := by
  obtain ⟨w, e, -, token, -⟩ := nameToken?_of_isMethod (b := b) h
  exact ⟨e, by rw [BoundTrait.namePlace, token]; rfl⟩

/-- The place of a method that is looked for is that of the first one with the name. -/
theorem methodPlace?_eq (h : IsTrait b.trait) (name : String) :
    BoundTrait.methodPlace? b.trait name =
      (b.named? name).bind fun f => BoundTrait.namePlace (b.phraseOf (.method f)) := by
  have signatures : (Source.functions b.trait).filterMap (Phrase.child? .signature) =
      (Source.functions b.trait).map fun f => b.phraseOf (.method f) := by
    rw [← List.filterMap_eq_map]
    refine List.filterMap_congr fun f mem => ?_
    obtain @⟨attributes, signature, body, _, _, outer, isSignature, -, -, -⟩ := h.isMethod f mem
    have child := child?_method outer isSignature body
    rw [Function.comp_apply, phraseOf, child]
    rfl
  rw [BoundTrait.methodPlace?, signatures, List.find?_map, Option.bind_map]
  rfl

/-- What is looked for by the name of a subject stands where its name is found. -/
theorem placeFor_nameOf? (h : IsTrait b.trait) (s : Subject) :
    BoundTrait.placeFor b.trait (b.nameOf? s) =
      BoundTrait.namePlace (b.phraseOf (b.target s)) := by
  have found : (b.nameOf? s).bind (BoundTrait.methodPlace? b.trait) =
      ((b.nameOf? s).bind b.named?).bind fun f =>
        BoundTrait.namePlace (b.phraseOf (.method f)) := by
    rw [Option.bind_assoc]
    exact Option.bind_congr fun name _ => methodPlace?_eq h name
  rw [BoundTrait.placeFor, found, target]
  cases first : (b.nameOf? s).bind b.named? with
  | none => rfl
  | some f =>
    obtain ⟨name, -, first⟩ := Option.bind_eq_some_iff.mp first
    obtain ⟨e, place⟩ := namePlace_of_isMethod (b := b) (h.isMethod f (mem_of_named? first).1)
    rw [Option.bind_some, Option.map_some, Option.getD_some, place]
    rfl

/-- A diagnostic is reported at what is found by the name of its subject, if this is the name that
the diagnostic ends with. -/
theorem ofDiagnostic_eq (h : IsTrait b.trait) (text : String) {s : Subject} {d : Diagnostic}
    (name : d.related.map Text.lastSegment = b.nameOf? s) :
    Report.ofDiagnostic text b.trait d = b.reportAt text (.ofDiagnostic s d) (b.target s) := by
  rw [Report.ofDiagnostic, name, placeFor_nameOf? h]
  rfl

theorem rejected_eq (b : Binding) : b.rejected =
    (Source.functions b.trait).filterMap fun f =>
      (b.refusal? f).map fun r => (b.declarationOf f, r) := by
  have declarations : b.declarations = (Source.functions b.trait).map b.declarationOf := rfl
  rw [rejected, Declaration.broken, markedDeclarations, declarations, List.filterMap_filter,
    List.filterMap_map]
  refine List.filterMap_congr fun f _ => ?_
  rw [Function.comp_apply, refusal?]
  split_ifs <;> rfl

theorem filterMap_refused?_eq_nil_iff :
    (Source.functions b.trait).filterMap b.refused? = [] ↔ b.rejected = [] := by
  rw [rejected_eq, List.filterMap_eq_nil_iff, List.filterMap_eq_nil_iff]
  refine forall₂_congr fun f _ => ?_
  rw [refused?, Option.map_eq_none_iff, Option.map_eq_none_iff]

/-- A method that breaks a rule is reported where its name is found. -/
theorem map_ofRejection (h : IsTrait b.trait) (text : String) :
    b.rejected.map (fun (d, r) => Report.ofRejection text b.trait d r) =
      ((Source.functions b.trait).filterMap b.refused?).map fun p =>
        b.reportAt text p (b.target p.subject) := by
  rw [rejected_eq, List.map_filterMap, List.map_filterMap]
  refine List.filterMap_congr fun f _ => ?_
  rw [refused?, Option.map_map, Option.map_map]
  refine Option.map_congr fun r _ => ?_
  have place := placeFor_nameOf? h (.method f)
  rw [nameOf?] at place
  simp only [Function.comp_apply, Report.ofRejection, place]
  rfl

theorem candidates_eq (b : Binding) :
    b.generator.candidates b.declarations = b.eligible.map b.candidateOf := by
  have declarations : b.declarations = (Source.functions b.trait).map b.declarationOf := rfl
  rw [Generator.candidates, Declaration.candidates, declarations, List.filter_map, List.map_map]
  rfl

/-- Diagnostics of methods are reported where the names of the methods are found. -/
theorem map_ofDiagnostic (h : IsTrait b.trait) (text : String) {g : Phrase → Option Diagnostic}
    {fs : List Phrase} (methods : ∀ f ∈ fs, f ∈ Source.functions b.trait)
    (related : ∀ f d, g f = some d → d.related = some (b.candidateOf f).qualifiedName) :
    (fs.filterMap g).map (Report.ofDiagnostic text b.trait) =
      (fs.filterMap fun f => (g f).map (.ofDiagnostic (.method f))).map fun p =>
        b.reportAt text p (b.target p.subject) := by
  rw [List.map_filterMap, List.map_filterMap]
  refine List.filterMap_congr fun f mem => ?_
  rw [Option.map_map]
  refine Option.map_congr fun d made => ?_
  refine ofDiagnostic_eq h text (s := .method f) ?_
  obtain ⟨w, _, isName, -, name⟩ := nameToken?_of_isMethod (b := b) (h.isMethod f (methods f mem))
  have free : ':' ∉ (b.candidateOf f).name.toList := by
    have same : (b.candidateOf f).name = Identifier.stored w := name
    rw [same]
    exact Identifier.colon_notMem_stored isName
  rw [related f d made, Option.map_some, Candidate.qualifiedName, Text.lastSegment_within free]
  rfl

theorem map_complaints (h : IsTrait b.trait) (text : String) :
    (b.eligible.filterMap (b.generator.complaint? ∘ b.candidateOf)).map
        (Report.ofDiagnostic text b.trait) =
      (b.eligible.filterMap b.complaint?).map fun p => b.reportAt text p (b.target p.subject) :=
  map_ofDiagnostic h text (fun _ mem => List.mem_of_mem_filter mem)
    fun _ _ made => Candidate.related_of_complaint? made

theorem map_skips (h : IsTrait b.trait) (text : String) :
    (b.eligible.filterMap
        (b.generator.context.skip? ∘ b.generator.memberOf ∘ b.candidateOf)).map
        (Report.ofDiagnostic text b.trait) =
      (b.eligible.filterMap b.skipped?).map fun p => b.reportAt text p (b.target p.subject) := by
  refine map_ofDiagnostic h text
    (g := b.generator.context.skip? ∘ b.generator.memberOf ∘ b.candidateOf)
    (fun _ mem => List.mem_of_mem_filter mem) fun f d skipped => ?_
  rw [← Generator.qualifiedName_memberOf b.generator]
  exact RenderContext.related_of_skip? skipped

/-- A unit that is left out is reported where the name of the trait is found. -/
theorem ofDiagnostic_emission (h : IsTrait b.trait) (text : String) (e : EmissionError) :
    Report.ofDiagnostic text b.trait (Diagnostic.emission b.key e) =
      b.reportAt text (.ofDiagnostic .unit (Diagnostic.emission b.key e)) (b.target .unit) := by
  obtain ⟨w, _, isName, -, written⟩ := nameToken?_of_isTrait h
  have name : Text.IsName (Source.writtenName b.trait) := written ▸ isName
  exact ofDiagnostic_eq h text (congrArg some (UnitKey.lastSegment_text (k := b.key) name))

/-- What generation finds is reported where the names of its subjects are found. -/
theorem map_findings (h : IsTrait b.trait) (text : String) :
    (b.generator.generate b.declarations).diagnostics.map (Report.ofDiagnostic text b.trait) =
      b.findings.map fun p => b.reportAt text p (b.target p.subject) := by
  rw [findings]
  split_ifs with none
  · have empty : b.generator.generate b.declarations = b.generator.emptyOutput := by
      rw [Generator.generate, candidates_eq, List.isEmpty_iff.mp none]
      rfl
    rw [empty]
    exact List.singleton_inj.mpr (ofDiagnostic_eq h text rfl)
  have some : b.generator.candidates b.declarations ≠ [] := by
    rw [candidates_eq]
    exact fun empty => none (List.isEmpty_iff.mpr (List.map_eq_nil_iff.mp empty))
  have unit : SourceUnit.emit b.generator.context b.key
      ((b.eligible.map b.candidateOf).map b.generator.memberOf)
      (fingerprint b.generator.configuration (b.eligible.map b.candidateOf)) = b.unit := by
    rw [List.map_map]
    rfl
  rw [generate_eq some, Generator.outputOf_singleton, candidates_eq, ← key]
  dsimp only
  rw [Generator.diagnostics_render, List.map_append, List.map_append, List.filterMap_map,
    map_complaints h, unit]
  cases b.unit with
  | error e => exact congrArg _ (List.singleton_inj.mpr (ofDiagnostic_emission h text e))
  | ok entry =>
    rw [List.map_map, List.filterMap_map]
    exact congrArg _ (map_skips h text)

/-- A source that is no text of tokens is reported at the trait's name. -/
theorem unreadable?_of_mapM_eq_error {text : String} {r : Report}
    (h : b.units.mapM (Expansion.unitTokens text b.trait) = .error r) :
    ∃ p, b.unreadable? = some p ∧ r = b.reportAt text p (b.target p.subject) := by
  obtain ⟨before, u, after, units, read, failed⟩ := mapM_eq_error_iff.mp h
  obtain ⟨e, unlexed, rfl⟩ := mapError_eq_error.mp failed
  have none : before.findSome? unlexed? = none := by
    rw [List.findSome?_eq_none_iff]
    intro v mem
    obtain ⟨ts, lexed⟩ := read v mem
    rw [unlexed?, Expansion.tokensOf_of_unitTokens lexed]
  refine ⟨⟨.trait, .error, s!"generated unit `{u.fileName}` does not lex: {e.message}"⟩, ?_, ?_⟩
  · rw [unreadable?, units, List.findSome?_append, none, Option.none_or, List.findSome?_cons,
      unlexed?, unlexed]
  · rfl

theorem unreadable?_of_mapM_eq_ok {text : String} {units : List (List Token)}
    (h : b.units.mapM (Expansion.unitTokens text b.trait) = .ok units) : b.unreadable? = none := by
  rw [unreadable?, List.findSome?_eq_none_iff]
  intro u mem
  obtain ⟨ts, lexed⟩ := isOk_iff.mp (isOk_mapM.mp (isOk_iff.mpr ⟨units, h⟩) u mem)
  rw [unlexed?, Expansion.tokensOf_of_unitTokens lexed]

/-- The reports of an expansion are its problems, each at what is found by the name of its
subject. -/
theorem reports_ofTrait (h : IsTrait b.trait) (text : String) :
    (Expansion.ofTrait b.generator b.scope text b.trait).reports =
      b.problems.map fun p => b.reportAt text p (b.target p.subject) := by
  rw [problems]
  -- The three exits of an expansion: a unit that can be read, one that cannot, and no unit at all.
  by_cases rejected : b.rejected = []
  · rw [filterMap_refused?_eq_nil_iff.mpr rejected, Expansion.ofTrait_of_not_rejected rejected]
    dsimp only
    cases lexed : b.units.mapM (Expansion.unitTokens text b.trait) with
    | ok units =>
      rw [unreadable?_of_mapM_eq_ok lexed]
      exact map_findings h text
    | error r =>
      obtain ⟨p, unreadable, rfl⟩ := unreadable?_of_mapM_eq_error lexed
      rw [unreadable]
      rfl
  · rw [(Expansion.ofTrait_of_rejected rejected text).2, map_ofRejection h]
    split
    · next none => exact absurd (filterMap_refused?_eq_nil_iff.mp none) rejected
    · rfl

/-- Whether a subject is found by its name: a method if it is the first one with the name, the unit
if no method has the name of the trait. -/
def IsFound (b : Binding) : Subject → Prop
  | .method f => ∃ before after, Source.functions b.trait = before ++ f :: after ∧
      ∀ g ∈ before, (b.declarationOf g).name ≠ (b.declarationOf f).name
  | .unit => ∀ f ∈ Source.functions b.trait, (b.declarationOf f).name ≠ Source.writtenName b.trait
  | .trait => True

theorem phraseOf_target {s : Subject} (h : b.IsFound s) :
    b.phraseOf (b.target s) = b.phraseOf s := by
  cases s with
  | method f =>
    obtain ⟨before, after, split, apart⟩ := h
    have first : b.named? (b.declarationOf f).name = some f := by
      have none : before.find? (fun g => (b.declarationOf g).name == (b.declarationOf f).name) =
          none := by
        rw [List.find?_eq_none]
        exact fun g mem same => apart g mem (beq_iff_eq.mp same)
      rw [named?, split, List.find?_append, none, Option.none_or]
      exact List.find?_cons_of_pos (beq_self_eq_true (b.declarationOf f).name)
    rw [target, nameOf?, Option.bind_some, first]
    rfl
  | unit =>
    have none : b.named? (Source.writtenName b.trait) = none := by
      rw [named?, List.find?_eq_none]
      exact fun f mem same => h f mem (beq_iff_eq.mp same)
    rw [target, nameOf?, Option.bind_some, none]
    rfl
  | trait => rfl

theorem isMarked_of_eligible {f : Phrase} (h : f ∈ b.eligible) :
    f ∈ Source.functions b.trait ∧ b.isMarked (b.declarationOf f) = true := by
  obtain ⟨mem, eligible⟩ := List.mem_filter.mp h
  refine ⟨mem, ?_⟩
  by_contra unmarked
  have rejected := Declaration.rejection?_eq_notMarked.mpr (Bool.not_eq_true _ ▸ unmarked)
  rw [rejected] at eligible
  cases eligible

theorem subject_of_refused? {f : Phrase} {p : Problem} (h : b.refused? f = some p) :
    p.subject = .method f ∧ b.isMarked (b.declarationOf f) = true := by
  obtain ⟨r, rule, rfl⟩ := Option.map_eq_some_iff.mp h
  rw [refusal?] at rule
  split_ifs at rule with marked
  exact ⟨rfl, marked⟩

theorem subject_of_unreadable? {p : Problem} (h : b.unreadable? = some p) : p.subject = .trait := by
  obtain ⟨u, -, unlexed⟩ := List.exists_of_findSome?_eq_some h
  rw [unlexed?] at unlexed
  split at unlexed <;> cases unlexed
  rfl

theorem mem_eligible_of_mem_findings {f : Phrase} {p : Problem} (mem : p ∈ b.findings)
    (subject : p.subject = .method f) : f ∈ b.eligible := by
  have diagnosed {d? : Phrase → Option Diagnostic}
      (mem : p ∈ b.eligible.filterMap fun f => (d? f).map (.ofDiagnostic (.method f))) :
      f ∈ b.eligible := by
    obtain ⟨g, inside, made⟩ := List.mem_filterMap.mp mem
    obtain ⟨d, -, rfl⟩ := Option.map_eq_some_iff.mp made
    obtain rfl : g = f := Subject.method.inj subject
    exact inside
  rw [findings] at mem
  split_ifs at mem
  · obtain rfl := List.mem_singleton.mp mem
    cases subject
  · rcases List.mem_append.mp mem with complaint | mem
    · exact diagnosed complaint
    · split at mem
      · obtain rfl := List.mem_singleton.mp mem
        cases subject
      · exact diagnosed mem

theorem isMarked_of_mem_problems {f : Phrase} {p : Problem} (mem : p ∈ b.problems)
    (subject : p.subject = .method f) :
    f ∈ Source.functions b.trait ∧ b.isMarked (b.declarationOf f) = true := by
  rw [problems] at mem
  split at mem
  · cases unreadable : b.unreadable? with
    | some q =>
      rw [unreadable] at mem
      obtain rfl := List.mem_singleton.mp mem
      rw [subject_of_unreadable? unreadable] at subject
      cases subject
    | none =>
      rw [unreadable] at mem
      exact isMarked_of_eligible (mem_eligible_of_mem_findings mem subject)
  · obtain ⟨g, inside, refused⟩ := List.mem_filterMap.mp mem
    obtain ⟨own, marked⟩ := subject_of_refused? refused
    obtain rfl : g = f := Subject.method.inj (own.symm.trans subject)
    exact ⟨inside, marked⟩

end Binding

/-- Where the reports of an expansion point. Its problems are reported in their order, each at the
name of what is found by the name of its subject: a method, or the trait. This is the subject itself
if it is a method and no method in front of it has the same name, or if it is the unit of the trait
and no method has the name of the trait. -/
theorem Expansion.ofTexts_reports {arguments item : String} {b : Binding}
    (h : Binding.ofTexts? arguments item = some b) :
    ∃ e, ofTexts arguments item = .ok e ∧
      e.reports = b.problems.map (fun p => b.reportAt item p (b.target p.subject)) ∧
      (∀ s, ∃ w place, Text.IsName w ∧
        BoundTrait.nameToken? (b.phraseOf (b.target s)) = some (.name w place)) ∧
      (∀ p, b.IsFound p.subject →
        b.reportAt item p (b.target p.subject) = b.reportAt item p p.subject) ∧
      ∀ p ∈ b.problems, ∀ f, p.subject = .method f →
        f ∈ Source.functions b.trait ∧ b.isMarked (b.declarationOf f) = true := by
  have isTrait := isTrait_of_ofTexts? h
  refine ⟨_, ofTexts_of_accepted h, Binding.reports_ofTrait isTrait item,
    Binding.nameToken?_target isTrait, fun p found => ?_, fun p mem f subject => ?_⟩
  · rw [Binding.reportAt, Binding.phraseOf_target found]
    rfl
  · exact Binding.isMarked_of_mem_problems mem subject

def sameNameTrait : String :=
  "pub trait T \x7b #[expression(\"[a]\")] fn f(a: f64) -> f64; " ++
    "#[expression(\"[b]\")] fn f(b: f64) -> f32; \x7d"

theorem Expansion.ofTexts_reports_of_sameNameTrait :
    ∃ b e, Binding.ofTexts? "" sameNameTrait = some b ∧ ofTexts "" sameNameTrait = .ok e ∧
      e.reports = b.problems.map (fun p => b.reportAt sameNameTrait p (b.target p.subject)) ∧
      e.reports ≠ b.problems.map (fun p => b.reportAt sameNameTrait p p.subject) := by
  have read : (Binding.ofTexts? "" sameNameTrait).map (fun b => decide
      (b.problems.map (fun p => b.reportAt sameNameTrait p (b.target p.subject)) =
        b.problems.map (fun p => b.reportAt sameNameTrait p p.subject))) = some false := by
    decide +kernel
  obtain ⟨b, accepted, apart⟩ := Option.map_eq_some_iff.mp read
  obtain ⟨e, expansion, reports, -⟩ := ofTexts_reports accepted
  refine ⟨b, e, accepted, expansion, reports, ?_⟩
  rw [reports]
  rwa [decide_eq_false_iff_not] at apart

end FormulaBinding
