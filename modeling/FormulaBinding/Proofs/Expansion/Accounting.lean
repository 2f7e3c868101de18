import FormulaBinding.Expansion.Basic
import FormulaBinding.Proofs.Declaration.Traits
import FormulaBinding.Proofs.Generation.Conservation
import FormulaBinding.Proofs.Unit.Functions

/-!
# What becomes of marked methods

If a marked method breaks a rule, nothing is generated for the trait and each such method is
reported. Otherwise an error is reported, or the implementation has the marked methods and no
others, in their order. This has two conditions. A unit is formatted as a text and cut into tokens
again, which has to keep its functions: a text in which a parameter's type puts a slash and a star
next to each other is cut differently, as a comment, and then a method can be lost without a report.
And no marked method may have a visibility or a default: such a method is kept as it is written and
not looked at.
-/

namespace FormulaBinding

/-- Declarations that break a rule, each with the first rule it breaks. -/
def Declaration.broken (m : Marker) (ds : List Declaration) : List (Declaration × Rejection) :=
  ds.filterMap fun d => (rejection? m d).map fun r => (d, r)

/-- A trait with an accepted generator, and the module path that the trait is named through. -/
structure Binding where
  generator : Generator
  scope : String
  trait : Phrase

namespace Binding

/-- What the texts of arguments and of a trait stand for, if both can be read and the configuration
that the arguments ask for is accepted. -/
def ofTexts? (arguments item : String) : Option Binding := do
  let argumentTokens ← (Grammar.tokensOf arguments).toOption
  let itemTokens ← (Grammar.tokensOf item).toOption
  let a ← (BindingArguments.ofTokens argumentTokens).toOption
  let trait ← (Grammar.readTrait itemTokens).toOption
  let c ← a.configuration.toOption
  let generator ← (Generator.make c).toOption
  return { generator, scope := a.scope, trait }

def declarationOf (b : Binding) (p : Phrase) : Declaration :=
  Source.declaration (Imports.ofMarker b.generator.configuration.marker) b.scope
    (Source.writtenName b.trait) ⟨Source.visibility b.trait, true, false⟩
    ((b.trait.child? .generics).isNone && (b.trait.child? .whereClause).isNone) p

def isMarked (b : Binding) (d : Declaration) : Bool :=
  (d.marker? b.generator.configuration.marker).isSome

def items (b : Binding) : List Phrase := (b.trait.groupParts? .brace).getD []

/-- Reads a method with a visibility or a default, which are left out. -/
def keptMethod (read : Grammar.Reader) : Parser Unit := do
  let (_, attributes) ← Parser.collect (Grammar.outerAttributes read)
  discard (Parser.collect do
    Grammar.visibility
    discard (Parser.word? "default"))
  Grammar.traitMethod read
  Parser.prepend attributes

def keptMethod? (p : Phrase) : Option Phrase :=
  if p.is .verbatimItem then
    match Grammar.readTokens keptMethod p.tokens with
    | .ok (_, [method]) => some method
    | _ => none
  else none

/-- The method that a phrase is, whether it was read as one or kept as it is written. -/
def method? (p : Phrase) : Option Phrase :=
  if p.is .functionItem then some p else keptMethod? p

def marked (b : Binding) : List Declaration :=
  ((b.items.filterMap method?).map b.declarationOf).filter b.isMarked

/-- The methods that carry the marker and were kept as they are written. A visibility or a default,
which a method of a trait does not have, makes a method be kept so. -/
def aside (b : Binding) : List Declaration :=
  ((b.items.filterMap keptMethod?).map b.declarationOf).filter b.isMarked

/-- The methods that were read as such. -/
def declarations (b : Binding) : List Declaration :=
  Source.ofTrait (Imports.ofMarker b.generator.configuration.marker) b.scope b.trait

/-- The marked methods among those that were read as such. -/
def markedDeclarations (b : Binding) : List Declaration := b.declarations.filter b.isMarked

/-- The marked methods among those that were read as such that break a rule. -/
def rejected (b : Binding) : List (Declaration × Rejection) :=
  Declaration.broken b.generator.configuration.marker b.markedDeclarations

def units (b : Binding) : List SourceUnit := (b.generator.generate b.declarations).units

/-- Whether formatting keeps functions: the tokens of a unit's text have the functions that the
unit's tokens had before. -/
def FormattingKeeps (b : Binding) : Prop :=
  ∀ u ∈ b.units, ∀ before after, b.generator.context.assemble u.key u.members = .ok before →
    Grammar.tokensOf u.source = .ok after →
      Token.implementedNames after = Token.implementedNames before

end Binding

namespace Expansion

def HasError (e : Expansion) : Prop := ∃ r ∈ e.reports, r.severity = .error

def functions (e : Expansion) : List String := e.units.flatMap Token.implementedNames

/-- What an expansion owes to marked methods. If some of them break a rule, nothing is generated and
there is exactly one error for each of these, which names it and the rule. Otherwise an error is
reported, or the functions of the implementation are the methods, each once and in order. -/
structure Answers (e : Expansion) (m : Marker) (ds : List Declaration) : Prop where
  broken : Declaration.broken m ds ≠ [] → e.units = [] ∧
    e.reports.map (fun r => (r.severity, r.message)) =
      (Declaration.broken m ds).map fun (d, r) =>
        (.error, s!"`{d.name}` cannot receive a generated body: {r.message}")
  kept : Declaration.broken m ds = [] →
    e.HasError ∨ Identifier.Spells e.functions (ds.map Declaration.name)

theorem isTrait_of_ofTexts? {arguments item : String} {b : Binding}
    (h : Binding.ofTexts? arguments item = some b) : Grammar.IsTrait b.trait := by
  simp only [Binding.ofTexts?, Option.bind_eq_bind, Option.bind_eq_some_iff] at h
  obtain ⟨_, -, _, lexed, _, -, trait, read, _, -, _, -, h⟩ := h
  cases h
  exact Grammar.isTrait_of_readTrait (Source.areProper_of_tokensOf (eq_ok_of_toOption lexed))
    (eq_ok_of_toOption read)

theorem ofTexts_of_accepted {arguments item : String} {b : Binding}
    (h : Binding.ofTexts? arguments item = some b) :
    ofTexts arguments item = .ok (ofTrait b.generator b.scope item b.trait) := by
  simp only [Binding.ofTexts?, Option.bind_eq_bind, Option.bind_eq_some_iff] at h
  obtain ⟨argumentTokens, ha, itemTokens, hi, a, hb, trait, ht, c, hc, g, hg, h⟩ := h
  cases h
  rw [ofTexts, eq_ok_of_toOption ha, eq_ok_of_toOption hi]
  simp only [bind, Except.bind, eq_ok_of_toOption hb, eq_ok_of_toOption ht, ofArguments,
    eq_ok_of_toOption hc, eq_ok_of_toOption hg]
  rfl

end Expansion

namespace Declaration

theorem rejection?_eq_notMarked {m : Marker} {d : Declaration} :
    rejection? m d = some .notMarked ↔ (d.marker? m).isSome = false := by
  rw [rejection?]
  cases d.marker? m with
  | none => exact ⟨fun _ => rfl, fun _ => rfl⟩
  | some a =>
    refine ⟨fun h => ?_, nofun⟩
    simp only [Option.isNone_some, Bool.false_eq_true, if_false] at h
    split_ifs at h <;> cases h

theorem markedRejections_eq (m : Marker) (ds : List Declaration) :
    markedRejections m ds = broken m (ds.filter fun d => (d.marker? m).isSome) := by
  rw [markedRejections, broken, List.filterMap_filter]
  refine List.filterMap_congr fun d _ => ?_
  cases marked : (d.marker? m).isSome with
  | false =>
    rw [rejection?_eq_notMarked.mpr marked]
    rfl
  | true =>
    rw [if_pos rfl]
    have broken : rejection? m d ≠ some .notMarked := by
      rw [Ne, rejection?_eq_notMarked, marked]
      nofun
    split
    · next h => exact absurd h broken
    · next r _ h => rw [h]; rfl
    · next h => rw [h]; rfl

/-- If no marked declaration breaks a rule, the candidates are the marked declarations. -/
theorem map_name_candidates {m : Marker} {ds : List Declaration}
    (h : markedRejections m ds = []) :
    (candidates m ds).map Candidate.name =
      (ds.filter fun d => (d.marker? m).isSome).map Declaration.name := by
  rw [markedRejections_eq, broken, List.filterMap_eq_nil_iff] at h
  have same : (ds.filter fun d => (rejection? m d).isNone) =
      ds.filter fun d => (d.marker? m).isSome := by
    refine List.filter_congr fun d hd => ?_
    cases marked : (d.marker? m).isSome with
    | false =>
      rw [rejection?_eq_notMarked.mpr marked]
      rfl
    | true =>
      have none := h d (List.mem_filter.mpr ⟨hd, marked⟩)
      rw [Option.map_eq_none_iff.mp none]
      rfl
  rw [candidates, List.map_map, same]
  rfl

end Declaration

namespace Binding

variable {b : Binding}

theorem key_of_mem_candidates {c : Candidate} (h : c ∈ b.generator.candidates b.declarations) :
    c.key = ⟨b.scope, Source.writtenName b.trait⟩ := by
  obtain ⟨d, hd, rfl⟩ := List.mem_map.mp h
  obtain ⟨p, -, rfl⟩ := List.mem_map.mp (List.mem_filter.mp hd).1
  rfl

theorem markedRejections_declarations :
    Declaration.markedRejections b.generator.configuration.marker b.declarations = b.rejected :=
  Declaration.markedRejections_eq _ _

theorem map_name_candidates (h : b.rejected = []) :
    (b.generator.candidates b.declarations).map Candidate.name =
      b.markedDeclarations.map Declaration.name :=
  Declaration.map_name_candidates (markedRejections_declarations.trans h)

/-- The methods that were read as such make one group. -/
theorem generate_eq (h : b.generator.candidates b.declarations ≠ []) :
    b.generator.generate b.declarations = Generator.outputOf
      [b.generator.render ⟨b.scope, Source.writtenName b.trait⟩
        (b.generator.candidates b.declarations)] :=
  Generator.generate_of_forall_key h fun _ hc => key_of_mem_candidates hc

end Binding

namespace Expansion

variable {b : Binding} {text : String}

/-- A marked method that breaks a rule is reported, and then nothing is generated. -/
theorem ofTrait_of_rejected (h : b.rejected ≠ []) (text : String) :
    (ofTrait b.generator b.scope text b.trait).units = [] ∧
      (ofTrait b.generator b.scope text b.trait).reports =
        b.rejected.map fun (d, r) => Report.ofRejection text b.trait d r := by
  rw [← Binding.markedRejections_declarations, Binding.declarations] at h ⊢
  rw [ofTrait]
  split
  · next none => exact absurd none h
  · exact ⟨rfl, rfl⟩

/-- Otherwise the units are cut into tokens and the diagnostics are reported. -/
theorem ofTrait_of_not_rejected (h : b.rejected = []) (text : String) :
    let item := (BoundTrait.strip b.generator.configuration.marker
      (Imports.ofMarker b.generator.configuration.marker) b.trait).tokens
    ofTrait b.generator b.scope text b.trait =
      match b.units.mapM (unitTokens text b.trait) with
      | .ok units =>
        { item, units
          reports := (b.generator.generate b.declarations).diagnostics.map
            (Report.ofDiagnostic text b.trait) }
      | .error report => { item, reports := [report] } := by
  rw [← Binding.markedRejections_declarations, Binding.declarations] at h
  simp only [ofTrait, h]
  rfl

theorem severity_of_unitTokens {p : Phrase} {u : SourceUnit} {r : Report}
    (h : unitTokens text p u = .error r) : r.severity = .error := by
  rw [unitTokens] at h
  cases hu : Grammar.tokensOf u.source with
  | ok ts =>
    rw [hu] at h
    cases h
  | error e =>
    rw [hu] at h
    cases h
    rfl

theorem tokensOf_of_unitTokens {p : Phrase} {u : SourceUnit} {ts : List Token}
    (h : unitTokens text p u = .ok ts) : Grammar.tokensOf u.source = .ok ts := mapError_eq_ok.mp h

theorem hasError_of_mem {e : Expansion} {p : Phrase} {ds : List Diagnostic} {d : Diagnostic}
    (reports : e.reports = ds.map (Report.ofDiagnostic text p)) (hd : d ∈ ds)
    (severity : d.severity = .error) : e.HasError := by
  refine ⟨Report.ofDiagnostic text p d, ?_, severity⟩
  rw [reports]
  exact List.mem_map_of_mem hd

/-- Where no candidate is left out and no error is reported, all members can be written. -/
theorem writes_of_not_hasError {g : Generator} {k : UnitKey} {cs : List Candidate} {u : SourceUnit}
    {ds : List Diagnostic} (has : g.HasUnit k cs u ds)
    (clean : ∀ d ∈ ds, d.severity ≠ .error) : cs.filter g.writes = cs := by
  obtain ⟨skips, rfl, each⟩ := has.reports
  rw [List.filter_eq_self]
  intro c hc
  by_contra cannot
  have left : c ∈ cs.filter fun c => !g.writes c :=
    List.mem_filter.mpr ⟨hc, by simpa using cannot⟩
  have none : skips = [] := by
    cases skips with
    | nil => rfl
    | cons d ds =>
      obtain ⟨_, _, skip, -⟩ := List.forall₂_cons_right_iff.mp each
      exact absurd skip.severity (clean d (List.mem_append_right _ List.mem_cons_self))
  rw [none, List.forall₂_nil_right_iff] at each
  rw [each] at left
  exact List.not_mem_nil left

/-- A unit has the functions of its trait's marked methods exactly if formatting keeps its
functions. -/
theorem spells_iff_formattingKeeps {u : SourceUnit} {ds : List Diagnostic} {after : List Token}
    (has : b.generator.HasUnit ⟨b.scope, Source.writtenName b.trait⟩
      (b.generator.candidates b.declarations) u ds)
    (clean : ∀ d ∈ ds, d.severity ≠ .error) (units : b.units = [u])
    (lexed : Grammar.tokensOf u.source = .ok after) (h : b.rejected = []) :
    Identifier.Spells (Token.implementedNames after) (b.markedDeclarations.map Declaration.name) ↔
      b.FormattingKeeps := by
  have all := writes_of_not_hasError has clean
  have members : u.members = (b.generator.candidates b.declarations).map b.generator.memberOf := by
    rw [has.members, all]
  have names : u.members.map Member.name = b.markedDeclarations.map Declaration.name := by
    rw [members, ← Binding.map_name_candidates h, List.map_map]
    rfl
  obtain ⟨before, assembled⟩ := SourceUnit.exists_assemble_of_emit has.alone
  have spelled := RenderContext.spells_assemble assembled
  rw [members, Generator.filter_memberOf, all, ← members, names] at spelled
  rw [Binding.FormattingKeeps, units]
  constructor
  · intro same v hv before' after' assembled' lexed'
    obtain rfl := List.mem_singleton.mp hv
    rw [has.key, assembled] at assembled'
    rw [lexed] at lexed'
    cases assembled'
    cases lexed'
    exact same.unique spelled
  · intro keeps
    have kept := keeps u List.mem_cons_self before after (by rw [has.key, assembled]) lexed
    rw [kept]
    exact spelled

/-- Where nothing is eligible, nothing is marked. -/
theorem spells_of_no_candidates (rejected : b.rejected = [])
    (none : b.generator.candidates b.declarations = []) (text : String) :
    Identifier.Spells (ofTrait b.generator b.scope text b.trait).functions
      (b.markedDeclarations.map Declaration.name) ∧ b.FormattingKeeps := by
  have units : b.units = [] := by
    rw [Binding.units, Generator.generate, none]
    rfl
  have names : b.markedDeclarations.map Declaration.name = [] := by
    rw [← Binding.map_name_candidates rejected, none]
    rfl
  constructor
  · rw [ofTrait_of_not_rejected rejected, units, names]
    rfl
  · intro u hu
    rw [units] at hu
    exact absurd hu List.not_mem_nil

/-- Without an error, an expansion has the marked methods that were read as such exactly if
formatting keeps functions. -/
theorem spells_functions_iff (rejected : b.rejected = []) {text : String}
    (clean : ¬ (ofTrait b.generator b.scope text b.trait).HasError) :
    Identifier.Spells (ofTrait b.generator b.scope text b.trait).functions
      (b.markedDeclarations.map Declaration.name) ↔ b.FormattingKeeps := by
  by_cases none : b.generator.candidates b.declarations = []
  · have both := spells_of_no_candidates rejected none text
    exact ⟨fun _ => both.2, fun _ => both.1⟩
  have expansion := ofTrait_of_not_rejected rejected text
  generalize ofTrait b.generator b.scope text b.trait = e at clean expansion ⊢
  have output := Binding.generate_eq none
  rw [Generator.outputOf_singleton] at output
  rcases Generator.render_cases b.generator ⟨b.scope, Source.writtenName b.trait⟩
    (b.generator.candidates b.declarations) with ⟨u, hu, has⟩ | ⟨hu, f, has⟩
  · rw [hu] at output
    have units : b.units = [u] := congrArg Output.units output
    rw [units, List.mapM_cons, List.mapM_nil] at expansion
    cases lexed : unitTokens text b.trait u with
    | error r =>
      rw [lexed] at expansion
      refine absurd ⟨r, ?_, severity_of_unitTokens lexed⟩ clean
      rw [expansion]
      exact List.mem_singleton_self r
    | ok after =>
      rw [lexed, output] at expansion
      have mild : ∀ d ∈ (b.generator.render ⟨b.scope, Source.writtenName b.trait⟩
          (b.generator.candidates b.declarations)).diagnostics, d.severity ≠ .error :=
        fun d hd severity => clean (hasError_of_mem (congrArg reports expansion) hd severity)
      have cut : e.units = [after] := congrArg Expansion.units expansion
      rw [functions, cut, List.flatMap_singleton]
      exact spells_iff_formattingKeeps has mild units (tokensOf_of_unitTokens lexed) rejected
  · rw [hu] at output
    have units : b.units = [] := congrArg Output.units output
    rw [units, List.mapM_nil, output] at expansion
    have reported : Diagnostic.emission ⟨b.scope, Source.writtenName b.trait⟩ f ∈
        (b.generator.render ⟨b.scope, Source.writtenName b.trait⟩
          (b.generator.candidates b.declarations)).diagnostics := by
      rw [has.reports]
      exact List.mem_append_right _ List.mem_cons_self
    exact absurd (hasError_of_mem (congrArg reports expansion) reported rfl) clean

theorem hasError_of_rejected (rejected : b.rejected ≠ []) (text : String) :
    (ofTrait b.generator b.scope text b.trait).HasError := by
  obtain ⟨⟨d, r⟩, hd⟩ := List.exists_mem_of_ne_nil _ rejected
  refine ⟨Report.ofRejection text b.trait d r, ?_, rfl⟩
  rw [(ofTrait_of_rejected rejected text).2]
  exact List.mem_map_of_mem (f := fun (d, r) => Report.ofRejection text b.trait d r) hd

end Expansion

namespace Binding

theorem method?_of_functionItem {p : Phrase} (h : p.is .functionItem = true) :
    method? p = some p := if_pos h

theorem method?_of_not_functionItem {p : Phrase} (h : ¬ p.is .functionItem = true) :
    method? p = keptMethod? p := if_neg h

theorem keptMethod?_of_functionItem {p : Phrase} (h : p.is .functionItem = true) :
    keptMethod? p = none := by
  have kind : p.kind? = some .functionItem := eq_of_beq h
  rw [keptMethod?, Phrase.is, kind]
  rfl

theorem filter_sublist_filterMap (ps : List Phrase) :
    (ps.filter (Phrase.is .functionItem)).Sublist (ps.filterMap method?) := by
  induction ps with
  | nil => exact .slnil
  | cons p ps ih =>
    by_cases h : p.is .functionItem = true
    · rw [List.filter_cons_of_pos h, List.filterMap_cons_some (method?_of_functionItem h)]
      exact ih.cons_cons p
    · rw [List.filter_cons_of_neg h]
      cases hm : method? p with
      | none => rwa [List.filterMap_cons_none hm]
      | some q =>
        rw [List.filterMap_cons_some hm]
        exact ih.cons q

theorem filterMap_method?_perm (ps : List Phrase) :
    (ps.filterMap method?).Perm
      (ps.filter (Phrase.is .functionItem) ++ ps.filterMap keptMethod?) := by
  induction ps with
  | nil => exact .refl _
  | cons p ps ih =>
    by_cases h : p.is .functionItem = true
    · rw [List.filter_cons_of_pos h, List.filterMap_cons_some (method?_of_functionItem h),
        List.filterMap_cons_none (keptMethod?_of_functionItem h)]
      exact ih.cons p
    · rw [List.filter_cons_of_neg h]
      cases hk : keptMethod? p with
      | none =>
        rw [List.filterMap_cons_none hk,
          List.filterMap_cons_none ((method?_of_not_functionItem h).trans hk)]
        exact ih
      | some q =>
        rw [List.filterMap_cons_some hk,
          List.filterMap_cons_some ((method?_of_not_functionItem h).trans hk)]
        exact (ih.cons q).trans List.perm_middle.symm

/-- A marked method was read as such or was kept as it is written. -/
theorem marked_perm (b : Binding) : b.marked.Perm (b.markedDeclarations ++ b.aside) := by
  have perm := ((filterMap_method?_perm b.items).map b.declarationOf).filter b.isMarked
  rwa [List.map_append, List.filter_append] at perm

theorem markedDeclarations_sublist (b : Binding) : b.markedDeclarations.Sublist b.marked :=
  ((filter_sublist_filterMap b.items).map b.declarationOf).filter b.isMarked

theorem length_marked (b : Binding) :
    b.marked.length = b.markedDeclarations.length + b.aside.length := by
  rw [b.marked_perm.length_eq, List.length_append]

/-- If no marked method was kept as it is written, all of them were read as methods. -/
theorem marked_eq_markedDeclarations {b : Binding} (h : b.aside = []) :
    b.marked = b.markedDeclarations := by
  have lengths := b.length_marked
  rw [h, List.length_nil, Nat.add_zero] at lengths
  exact (b.markedDeclarations_sublist.eq_of_length lengths.symm).symm

theorem length_broken (b : Binding) :
    (Declaration.broken b.generator.configuration.marker b.marked).length =
      b.rejected.length + (Declaration.broken b.generator.configuration.marker b.aside).length := by
  rw [Declaration.broken, (b.marked_perm.filterMap _).length_eq, List.filterMap_append,
    List.length_append]
  rfl

/-- If no method that was kept as it is written breaks a rule, those that do were read as such. -/
theorem broken_eq_rejected {b : Binding}
    (h : Declaration.broken b.generator.configuration.marker b.aside = []) :
    Declaration.broken b.generator.configuration.marker b.marked = b.rejected := by
  have lengths := b.length_broken
  rw [h, List.length_nil, Nat.add_zero] at lengths
  exact ((b.markedDeclarations_sublist.filterMap _).eq_of_length lengths.symm).symm

end Binding

namespace Expansion

theorem length_of_spells {words names : List String} (h : Identifier.Spells words names) :
    names.length = words.length := by
  have lengths := congrArg List.length h
  rwa [List.length_map, List.length_map] at lengths

theorem Answers.hasError {e : Expansion} {m : Marker} {ds : List Declaration}
    (h : e.Answers m ds) (broken : Declaration.broken m ds ≠ []) : e.HasError := by
  have reports := (h.broken broken).2
  obtain ⟨⟨d, r⟩, hd⟩ := List.exists_mem_of_ne_nil _ broken
  have named := List.mem_map_of_mem (f := fun (d, r) => (Severity.error,
    s!"`{Declaration.name d}` cannot receive a generated body: {Rejection.message r}")) hd
  rw [← reports] at named
  obtain ⟨report, hreport, same⟩ := List.mem_map.mp named
  exact ⟨report, hreport, congrArg Prod.fst same⟩

/-- Without an error, methods get what they are owed exactly if none of them breaks a rule and the
implementation has them all. -/
theorem answers_iff_of_not_hasError {e : Expansion} {m : Marker} {ds : List Declaration}
    (clean : ¬ e.HasError) :
    e.Answers m ds ↔
      Declaration.broken m ds = [] ∧ Identifier.Spells e.functions (ds.map Declaration.name) := by
  constructor
  · intro answers
    have unbroken : Declaration.broken m ds = [] := by
      by_contra broken
      exact clean (answers.hasError broken)
    exact ⟨unbroken, (answers.kept unbroken).resolve_left clean⟩
  · rintro ⟨unbroken, spells⟩
    exact ⟨fun broken => absurd unbroken broken, fun _ => .inr spells⟩

/-- The report of a rejection is told from any other by the backquote that it begins with. -/
theorem head_of_mem_reports {b : Binding} {text : String} {r : Report} (rejected : b.rejected = [])
    (h : r ∈ (ofTrait b.generator b.scope text b.trait).reports) :
    r.message.toList.head? ≠ some '`' := by
  rw [ofTrait_of_not_rejected rejected text] at h
  cases hu : b.units.mapM (unitTokens text b.trait) with
  | ok units =>
    rw [hu] at h
    obtain ⟨d, -, rfl⟩ := List.mem_map.mp h
    cases hs : d.severity <;>
      simp [Report.ofDiagnostic, Diagnostic.text, Severity.name, hs, toString]
  | error report =>
    rw [hu] at h
    obtain rfl := List.mem_singleton.mp h
    obtain ⟨u, -, refused⟩ := exists_of_mapM_eq_error hu
    rw [unitTokens] at refused
    cases hl : Grammar.tokensOf u.source with
    | ok ts =>
      rw [hl] at refused
      cases refused
    | error e =>
      rw [hl] at refused
      cases refused
      simp [toString]

section

variable {b : Binding} {text : String}

/-- With an error, marked methods get what they are owed exactly if those that were kept as they are
written break no rule. -/
theorem answers_iff_of_hasError (error : (ofTrait b.generator b.scope text b.trait).HasError) :
    (ofTrait b.generator b.scope text b.trait).Answers b.generator.configuration.marker b.marked ↔
      Declaration.broken b.generator.configuration.marker b.aside = [] := by
  constructor
  · intro answers
    by_contra left
    have lengths := b.length_broken
    have positive := List.length_pos_of_ne_nil left
    have broken : Declaration.broken b.generator.configuration.marker b.marked ≠ [] :=
      List.ne_nil_of_length_pos (by omega)
    have reports := (answers.broken broken).2
    by_cases rejected : b.rejected = []
    · obtain ⟨r, hr, -⟩ := error
      have named := List.mem_map_of_mem (f := fun r => (r.severity, r.message)) hr
      rw [reports] at named
      obtain ⟨⟨d, rejection⟩, -, same⟩ := List.mem_map.mp named
      refine head_of_mem_reports rejected hr ?_
      have message : _ = r.message := congrArg Prod.snd same
      rw [← message]
      simp [toString]
    · have same := congrArg List.length reports
      rw [(ofTrait_of_rejected rejected text).2] at same
      simp only [List.length_map] at same
      omega
  · intro none
    refine ⟨fun broken => ?_, fun _ => .inl error⟩
    rw [Binding.broken_eq_rejected none] at broken ⊢
    obtain ⟨units, reports⟩ := ofTrait_of_rejected broken text
    refine ⟨units, ?_⟩
    rw [reports, List.map_map]
    rfl

/-- Without an error and with no marked method kept as it is written, marked methods get what they
are owed exactly if formatting keeps functions. -/
theorem answers_iff_formattingKeeps (aside : b.aside = [])
    (clean : ¬ (ofTrait b.generator b.scope text b.trait).HasError) :
    (ofTrait b.generator b.scope text b.trait).Answers b.generator.configuration.marker b.marked ↔
      b.FormattingKeeps := by
  have rejected : b.rejected = [] := by
    by_contra rejected
    exact clean (hasError_of_rejected rejected text)
  have unbroken : Declaration.broken b.generator.configuration.marker b.markedDeclarations = [] :=
    rejected
  rw [answers_iff_of_not_hasError clean, Binding.marked_eq_markedDeclarations aside,
    and_iff_right unbroken, spells_functions_iff rejected clean]

/-- Without an error and where formatting keeps functions, a marked method that was kept as it is
written is lost. -/
theorem aside_eq_nil_of_answers (keeps : b.FormattingKeeps)
    (clean : ¬ (ofTrait b.generator b.scope text b.trait).HasError)
    (answers : (ofTrait b.generator b.scope text b.trait).Answers b.generator.configuration.marker
      b.marked) : b.aside = [] := by
  have rejected : b.rejected = [] := by
    by_contra rejected
    exact clean (hasError_of_rejected rejected text)
  have all := ((answers_iff_of_not_hasError clean).mp answers).2
  have read := (spells_functions_iff rejected clean).mpr keeps
  have lengths := (length_of_spells all).trans (length_of_spells read).symm
  rw [List.length_map, List.length_map, b.length_marked] at lengths
  exact List.eq_nil_of_length_eq_zero (by omega)

end

/-- What the texts of a trait without an error come to: the names of its marked methods, and those
of the functions that are generated. -/
theorem exists_of_evaluated {item : String} {n functions : List String}
    {severities : List Severity}
    (read : (Binding.ofTexts? "" item).map (fun b => (b.aside.length,
      (Declaration.broken b.generator.configuration.marker b.marked).length,
      b.marked.map Declaration.name)) = some (0, 0, n))
    (expanded : (ofTexts "" item).toOption.map
      (fun e => (e.reports.map Report.severity, e.functions)) = some (severities, functions))
    (clean : Severity.error ∉ severities) :
    ∃ b e, Binding.ofTexts? "" item = some b ∧ ofTexts "" item = .ok e ∧ b.aside = [] ∧
      Declaration.broken b.generator.configuration.marker b.marked = [] ∧
      b.marked.map Declaration.name = n ∧ ¬ e.HasError ∧ e.functions = functions := by
  obtain ⟨b, hb, found⟩ := Option.map_eq_some_iff.mp read
  obtain ⟨e, he, made⟩ := Option.map_eq_some_iff.mp expanded
  obtain ⟨aside, found⟩ := Prod.mk.inj found
  obtain ⟨unbroken, marked⟩ := Prod.mk.inj found
  obtain ⟨rfl, rfl⟩ := Prod.mk.inj made
  refine ⟨b, e, hb, eq_ok_of_toOption he, List.eq_nil_of_length_eq_zero aside,
    List.eq_nil_of_length_eq_zero unbroken, marked, ?_, rfl⟩
  rintro ⟨r, hr, error⟩
  exact clean (List.mem_map.mpr ⟨r, hr, error⟩)

def plainTrait : String := "trait T \x7b #[expression(\"\")] fn f(a: f64) -> f64; \x7d"

theorem functions_ofTexts_plainTrait : (ofTexts "" plainTrait).toOption.map
    (fun e => (e.reports.map Report.severity, e.functions)) = some ([.warning], ["f"]) := by
  decide +kernel

/-- A trait of which the unit is formatted with a slash and a star next to each other, in the type
of the first parameter, and a star and a slash in that of the second. -/
def slashStarTrait : String :=
  "trait T \x7b #[expression(\"\")] fn first(a: m!($() / *)) -> f64; " ++
    "#[expression(\"\")] fn second(b: m!(*/)) -> f64; \x7d"

theorem functions_ofTexts_slashStarTrait : (ofTexts "" slashStarTrait).toOption.map
    (fun e => (e.reports.map Report.severity, e.functions)) =
      some ([.warning, .warning], ["first"]) := by
  decide +kernel

end Expansion

end FormulaBinding
