import FormulaBinding.Proofs.Declaration.Prelude
import FormulaBinding.Proofs.Expansion.Accounting
import Mathlib.Data.List.Flatten

/-!
# What an expansion changes in a trait

An accepted configuration takes the markers away from the methods of the trait, and nothing else. A
configuration that is refused leaves the trait as it is. A marked method with a visibility or a
default, which is kept as it is written, keeps its markers too.
-/

namespace FormulaBinding

namespace Token

/-- Tokens that lose phrases: all tokens of these phrases go, at the top or in groups, and every
other token stays where it is. -/
inductive Loses : List Token → List Phrase → List Token → Prop
  | nil : Loses [] [] []
  | keep {ts us : List Token} {ps : List Phrase} (t : Token) (rest : Loses ts ps us) :
      Loses (t :: ts) ps (t :: us)
  | inside {ts us body body' : List Token} {ps qs : List Phrase} (d : Delimiter) (o c : Extent)
      (inner : Loses body ps body') (rest : Loses ts qs us) :
      Loses (.group d body o c :: ts) (ps ++ qs) (.group d body' o c :: us)
  | drop {ts us : List Token} {ps : List Phrase} (p : Phrase) (rest : Loses ts ps us) :
      Loses (p.tokens ++ ts) (p :: ps) us

namespace Loses

variable {ts us ts' us' : List Token} {ps ps' : List Phrase}

theorem refl (ts : List Token) : Loses ts [] ts := by
  induction ts with
  | nil => exact .nil
  | cons t _ ih => exact .keep t ih

theorem append (h : Loses ts ps us) (h' : Loses ts' ps' us') :
    Loses (ts ++ ts') (ps ++ ps') (us ++ us') := by
  induction h with
  | nil => exact h'
  | keep t _ ih => exact .keep t ih
  | inside d o c inner _ _ ih =>
    rw [List.append_assoc]
    exact .inside d o c inner ih
  | drop p _ ih =>
    rw [List.append_assoc]
    exact .drop p ih

theorem group (d : Delimiter) (o c : Extent) (h : Loses ts ps us) :
    Loses [.group d ts o c] ps [.group d us o c] := by
  have whole := Loses.inside d o c h .nil
  rwa [List.append_nil] at whole

/-- Of phrases in a row, those that pass a test are lost. -/
theorem filter (test : Phrase → Bool) (ps : List Phrase) :
    Loses (Phrase.tokensList ps) (ps.filter test)
      (Phrase.tokensList (ps.filter fun p => !test p)) := by
  induction ps with
  | nil => exact .nil
  | cons p ps ih =>
    rw [Phrase.tokensList]
    cases h : test p with
    | true =>
      rw [List.filter_cons_of_pos h, List.filter_cons_of_neg (by simp [h])]
      exact .drop p ih
    | false =>
      rw [List.filter_cons_of_neg (by simp [h]), List.filter_cons_of_pos (by simp [h])]
      exact (refl p.tokens).append ih

/-- Of phrases in a row, those that pass a test lose something and the others stay. -/
theorem flatMap {f : Phrase → Phrase} {lost : Phrase → List Phrase} {test : Phrase → Bool}
    (changed : ∀ p ∈ ps, test p → Loses p.tokens (lost p) (f p).tokens)
    (kept : ∀ p ∈ ps, test p = false → f p = p) :
    Loses (Phrase.tokensList ps) ((ps.filter test).flatMap lost)
      (Phrase.tokensList (ps.map f)) := by
  induction ps with
  | nil => exact .nil
  | cons p ps ih =>
    have later := ih (fun q mem => changed q (List.mem_cons_of_mem p mem))
      fun q mem => kept q (List.mem_cons_of_mem p mem)
    rw [Phrase.tokensList, List.map_cons, Phrase.tokensList]
    cases h : test p with
    | true =>
      rw [List.filter_cons_of_pos h, List.flatMap_cons]
      exact (changed p List.mem_cons_self h).append later
    | false =>
      rw [List.filter_cons_of_neg (by simp [h]), kept p List.mem_cons_self h]
      exact (refl p.tokens).append later

theorem sizeList_eq (h : Loses ts ps us) :
    sizeList ts = sizeList us + sizeList (Phrase.tokensList ps) := by
  induction h with
  | nil => rfl
  | keep t _ ih =>
    rw [sizeList, sizeList]
    omega
  | inside d o c _ _ ih ih' =>
    rw [sizeList, sizeList, size, size, Phrase.tokensList_append, sizeList_append]
    omega
  | drop p _ ih =>
    rw [sizeList_append, Phrase.tokensList, sizeList_append]
    omega

end Loses

theorem eq_nil_of_sizeList_eq_zero {ts : List Token} (h : sizeList ts = 0) : ts = [] := by
  cases ts with
  | nil => rfl
  | cons t ts => cases t <;> simp [sizeList, size] at h

/-- The size of phrases does not depend on their order. -/
theorem sizeList_tokensList_of_perm {ps qs : List Phrase} (h : ps.Perm qs) :
    sizeList (Phrase.tokensList ps) = sizeList (Phrase.tokensList qs) := by
  induction h with
  | nil => rfl
  | cons p _ ih => rw [Phrase.tokensList, Phrase.tokensList, sizeList_append, sizeList_append, ih]
  | swap p q ps =>
    simp only [Phrase.tokensList, sizeList_append]
    omega
  | trans _ _ ih ih' => exact ih.trans ih'

end Token

def Declaration.unmarked (m : Marker) (d : Declaration) : Declaration :=
  { d with annotations := d.annotations.filter fun a => !a.isMarker m }

namespace BoundTrait
open Grammar Source

variable {m : Marker} {i : Imports} {p signature body : Phrase} {attributes : List Phrase}

def markersOf (m : Marker) (i : Imports) (f : Phrase) : List Phrase :=
  (Source.attributes f).filter (isMarker m i)

theorem stripPart_attribute (outer : p.is .outerAttribute) :
    stripPart m i p = if isMarker m i p then [] else [p] := by
  cases p with
  | node k parts => simp only [stripPart, isMarkerOf, outer, Bool.true_and]
  | _ => cases outer

theorem flatMap_stripPart (outer : ∀ q ∈ attributes, q.is .outerAttribute) :
    attributes.flatMap (stripPart m i) = attributes.filter fun q => !isMarker m i q := by
  induction attributes with
  | nil => rfl
  | cons q attributes ih =>
    rw [List.flatMap_cons, stripPart_attribute (outer q List.mem_cons_self),
      ih fun r mem => outer r (List.mem_cons_of_mem q mem), List.filter_cons]
    cases isMarker m i q <;> rfl

theorem stripPart_signature (h : signature.is .signature) :
    stripPart m i signature = [signature] := by
  cases signature with
  | node k parts =>
    obtain rfl : k = .signature := Option.some.inj (beq_iff_eq.mp h)
    rfl
  | _ => cases h

/-- A block loses the markers among its inner attributes. A mark has none. -/
theorem stripPart_body (h : IsFunctionBody body) : ∃ body', stripPart m i body = [body'] ∧
    IsFunctionBody body' ∧
    block? body' = (block? body).map (·.filter fun q => !isMarkerOf m i .innerAttribute q) ∧
    Token.Loses body.tokens (((block? body).getD []).filter (isMarkerOf m i .innerAttribute))
      body'.tokens := by
  cases h with
  | block parts o c =>
    refine ⟨_, rfl, .block _ o c, rfl, ?_⟩
    exact Token.Loses.group .brace o c (Token.Loses.filter _ parts)
  | mark t => exact ⟨_, rfl, .mark t, rfl, Token.Loses.refl [t]⟩

theorem filter_isMarkerOf (k : Kind) (ps : List Phrase) :
    ps.filter (isMarkerOf m i k) = (ps.filter (Phrase.is k)).filter (isMarker m i) := by
  rw [List.filter_filter]
  exact List.filter_congr fun q _ => Bool.and_comm _ _

theorem filter_not_isMarkerOf (k : Kind) (ps : List Phrase) :
    (ps.filter fun q => !isMarkerOf m i k q).filter (Phrase.is k) =
      (ps.filter (Phrase.is k)).filter fun q => !isMarker m i q := by
  rw [List.filter_filter, List.filter_filter]
  refine List.filter_congr fun q _ => ?_
  rw [isMarkerOf]
  cases q.is k <;> cases isMarker m i q <;> rfl

theorem stripMethod_method {body' : Phrase} (outer : ∀ q ∈ attributes, q.is .outerAttribute)
    (isSignature : signature.is .signature) (part : stripPart m i body = [body']) :
    stripMethod m i (.node .functionItem (attributes ++ [signature, body])) =
      .node .functionItem
        (attributes.filter (fun q => !isMarker m i q) ++ [signature, body']) := by
  rw [stripMethod, List.flatMap_append, flatMap_stripPart outer, List.flatMap_cons,
    stripPart_signature isSignature, List.flatMap_singleton, part]
  rfl

theorem tokens_eq_nil_of_mem {ps : List Phrase} (h : Phrase.tokensList ps = []) (mem : p ∈ ps) :
    p.tokens = [] := by
  induction ps with
  | nil => cases mem
  | cons q ps ih =>
    obtain ⟨first, later⟩ := List.append_eq_nil_iff.mp h
    rcases List.mem_cons.mp mem with rfl | mem
    · exact first
    · exact ih later mem

theorem groupParts?_eq_none_of_tokens (h : p.tokens = []) (d : Delimiter) :
    p.groupParts? d = none := by
  cases p with
  | token t => rfl
  | group => cases h
  | node k parts =>
    rw [Phrase.groupParts?, Phrase.parts, List.findSome?_eq_none_iff]
    rw [Phrase.tokens] at h
    intro q mem
    cases q with
    | group e ps o c => cases tokens_eq_nil_of_mem h mem
    | _ => rfl

theorem tokens_ne_nil_of_isMarker (named : m.name ≠ "") (h : isMarker m i p) : p.tokens ≠ [] := by
  intro none
  have path : Source.attributePath p = [] := by
    rw [attributePath, Source.attributeContent, groupParts?_eq_none_of_tokens none]
    rfl
  rw [isMarker, annotationOf, path] at h
  exact named (beq_iff_eq.mp (Bool.and_eq_true_iff.mp h).1)

theorem loses_stripMethod (h : IsMethod p) :
    Token.Loses p.tokens (markersOf m i p) (stripMethod m i p).tokens := by
  obtain @⟨attributes, signature, body, _, _, outer, isSignature, -, -, isBody⟩ := h
  obtain ⟨body', part, -, -, loses⟩ := stripPart_body (m := m) (i := i) isBody
  rw [markersOf, attributes_method outer isSignature isBody, List.filter_append,
    ← filter_isMarkerOf, stripMethod_method outer isSignature part]
  simp only [Phrase.tokens, Phrase.tokensList_append, Phrase.tokensList, List.append_nil]
  exact (Token.Loses.filter _ attributes).append ((Token.Loses.refl signature.tokens).append loses)

theorem attributes_stripMethod (h : IsMethod p) : Source.attributes (stripMethod m i p) =
    (Source.attributes p).filter fun q => !isMarker m i q := by
  obtain @⟨attributes, signature, body, _, _, outer, isSignature, -, -, isBody⟩ := h
  obtain ⟨body', part, isBody', block, -⟩ := stripPart_body (m := m) (i := i) isBody
  have outer' : ∀ q ∈ attributes.filter fun q => !isMarker m i q, q.is .outerAttribute :=
    fun q mem => outer q (List.mem_of_mem_filter mem)
  rw [stripMethod_method outer isSignature part, attributes_method outer' isSignature isBody',
    attributes_method outer isSignature isBody, List.filter_append, block]
  cases block? body with
  | none => rfl
  | some parts => rw [Option.map_some, Option.getD_some, Option.getD_some, filter_not_isMarkerOf]

/-- The declaration of a method that is stripped differs in the markers only. -/
theorem declaration_stripMethod (h : IsMethod p) (scope container : String) (modifiers : Modifiers)
    (plain : Bool) : declaration i scope container modifiers plain (stripMethod m i p) =
      (declaration i scope container modifiers plain p).unmarked m := by
  have left : annotations i (stripMethod m i p) =
      (annotations i p).filter fun a => !a.isMarker m := by
    rw [annotations, attributes_stripMethod h, annotations, List.filter_map]
    rfl
  rw [declaration, declaration, Declaration.unmarked, left]
  obtain @⟨attributes, signature, body, _, _, outer, isSignature, -, -, isBody⟩ := h
  obtain ⟨body', part, -, block, -⟩ := stripPart_body (m := m) (i := i) isBody
  have outer' : ∀ q ∈ attributes.filter fun q => !isMarker m i q, q.is .outerAttribute :=
    fun q mem => outer q (List.mem_of_mem_filter mem)
  rw [stripMethod_method outer isSignature part, child?_method outer' isSignature,
    child?_method outer isSignature, groupParts?_method outer' isSignature,
    groupParts?_method outer isSignature, block, Option.isSome_map]

theorem stripMethod_of_not_is (h : p.is .functionItem = false) : stripMethod m i p = p := by
  rcases p with _ | _ | ⟨k, parts⟩
  case node =>
    rw [stripMethod]
    rintro _ ⟨⟩
    cases h
  all_goals rfl

theorem is_stripMethod (k : Kind) : (stripMethod m i p).is k = p.is k := by
  cases function : p.is .functionItem with
  | false => rw [stripMethod_of_not_is function]
  | true =>
    cases p with
    | node l parts =>
      obtain rfl : l = .functionItem := Option.some.inj (beq_iff_eq.mp function)
      rfl
    | _ => cases function

section
variable {front items : List Phrase} {o c : Extent}

theorem strip_trait (isOpen : ∀ q ∈ front, Parser.IsOpen q) :
    strip m i (.node .traitItem (front ++ [.group .brace items o c])) =
      .node .traitItem (front ++ [.group .brace (items.map (stripMethod m i)) o c]) := by
  rw [strip, List.map_append, List.map_singleton]
  congr 2
  refine (List.map_congr_left fun q mem => ?_).trans front.map_id
  cases q with
  | group d ps o c => exact absurd rfl (isOpen _ mem d ps o c)
  | _ => rfl

end

theorem loses_strip (h : IsTrait p) :
    Token.Loses p.tokens ((functions p).flatMap (markersOf m i)) (strip m i p).tokens := by
  obtain @⟨front, items, o, c, _, _, isOpen, -, -, methods⟩ := h
  have inside : Token.Loses (Phrase.tokensList items)
      ((items.filter (Phrase.is .functionItem)).flatMap (markersOf m i))
      (Phrase.tokensList (items.map (stripMethod m i))) :=
    .flatMap (fun q mem function => loses_stripMethod (methods q mem function))
      fun _ _ other => stripMethod_of_not_is other
  rw [functions_trait isOpen, strip_trait isOpen]
  simp only [Phrase.tokens, Phrase.tokensList_append, Phrase.tokensList, List.append_nil]
  exact (Token.Loses.refl _).append (Token.Loses.group .brace o c inside)

/-- The declarations of a trait that is stripped differ in the markers only. -/
theorem ofTrait_strip (h : IsTrait p) (scope : String) :
    ofTrait i scope (strip m i p) = (ofTrait i scope p).map (Declaration.unmarked m) := by
  obtain @⟨front, items, o, c, _, _, isOpen, -, -, methods⟩ := h
  have left : (items.map (stripMethod m i)).filter (Phrase.is .functionItem) =
      (items.filter (Phrase.is .functionItem)).map (stripMethod m i) := by
    rw [List.filter_map]
    refine congrArg _ (List.filter_congr fun q _ => is_stripMethod _)
  rw [strip_trait isOpen, ofTrait, ofTrait, functions_trait isOpen, functions_trait isOpen, left,
    List.map_map, List.map_map]
  -- What the declarations take from the trait itself stands in front of the braces.
  simp only [writtenName, Source.visibility, child?_trait]
  refine List.map_congr_left fun q mem => ?_
  obtain ⟨mem, function⟩ := List.mem_filter.mp mem
  exact declaration_stripMethod (methods q mem function) _ _ _ _

end BoundTrait

theorem BindingArguments.marker_name_ne_empty {a : BindingArguments} {m : Marker}
    (h : a.marker = .ok m) : m.name ≠ "" := by
  rw [marker] at h
  split at h
  · cases h
    decide
  · intro empty
    have plain := (Marker.proper_of_ofPath (mapError_eq_ok.mp h)).1
    rw [empty] at plain
    cases plain

theorem BindingArguments.marker_of_configuration {a : BindingArguments} {c : Configuration}
    (h : a.configuration = .ok c) : a.marker = .ok c.marker := by
  obtain ⟨m, marker, h⟩ := bind_eq_ok.mp h
  cases h
  exact marker

theorem Generator.configuration_of_make {c : Configuration} {g : Generator} (h : make c = .ok g) :
    g.configuration = c := by
  obtain ⟨_, -, h⟩ := bind_eq_ok.mp h
  cases h
  rfl

namespace Expansion

variable {arguments item : String} {a : BindingArguments} {p : Phrase}

/-- Where arguments and a trait can be read, the configuration is refused and reported, or
accepted. -/
theorem ofTexts_cases (args : BindingArguments.ofText arguments = .ok a)
    (trait : (Grammar.tokensOf item >>= Grammar.readTrait) = .ok p) :
    (Binding.ofTexts? arguments item = none ∧
      ∃ r, ofTexts arguments item = .ok { item := p.tokens, reports := [r] }) ∨
    ∃ b, Binding.ofTexts? arguments item = some b ∧ b.trait = p ∧
      a.configuration = .ok b.generator.configuration := by
  obtain ⟨_, lexed, args⟩ := bind_eq_ok.mp args
  obtain ⟨_, lexed', trait⟩ := bind_eq_ok.mp trait
  rw [ofTexts, Binding.ofTexts?, lexed, lexed']
  simp only [bind, Except.bind, Except.toOption, Option.bind_some, args, trait, ofArguments]
  cases configured : a.configuration with
  | error e => exact .inl ⟨rfl, _, rfl⟩
  | ok c =>
    cases accepted : Generator.make c with
    | error e => exact .inl ⟨by simp [accepted], _, by simp only [accepted]; rfl⟩
    | ok g =>
      refine .inr ⟨⟨g, a.scope, p⟩, by simp [accepted], rfl, ?_⟩
      rw [Generator.configuration_of_make accepted]

end Expansion

namespace Binding

variable {b : Binding}

/-- The attributes of a method of the trait that are the marker. -/
def markersOf (b : Binding) (f : Phrase) : List Phrase :=
  BoundTrait.markersOf b.generator.configuration.marker
    (Imports.ofMarker b.generator.configuration.marker) f

/-- What is left of a trait without the markers of its methods. -/
def stripped (b : Binding) : Binding :=
  let m := b.generator.configuration.marker
  { b with trait := BoundTrait.strip m (Imports.ofMarker m) b.trait }

/-- The markers of all methods, whether they were read as such or kept as they are written. -/
def markers (b : Binding) : List Phrase := (b.items.filterMap method?).flatMap b.markersOf

theorem isMarked_declarationOf (f : Phrase) :
    b.isMarked (b.declarationOf f) = false ↔ b.markersOf f = [] := by
  rw [isMarked, Declaration.marker?, Option.isSome_eq_false_iff, Option.isNone_iff_eq_none,
    List.find?_eq_none, markersOf, BoundTrait.markersOf, List.filter_eq_nil_iff]
  exact List.forall_mem_map

/-- No marked method was kept as it is written exactly if those that were have no markers. -/
theorem aside_eq_nil_iff :
    b.aside = [] ↔ ∀ f ∈ b.items.filterMap keptMethod?, b.markersOf f = [] := by
  rw [aside, List.filter_eq_nil_iff, List.forall_mem_map]
  refine forall₂_congr fun f _ => ?_
  rw [← isMarked_declarationOf, Bool.not_eq_true]

/-- The markers of all methods, by whether these were read as such. -/
theorem markers_perm (b : Binding) :
    b.markers.Perm ((Source.functions b.trait).flatMap b.markersOf ++
      (b.items.filterMap keptMethod?).flatMap b.markersOf) := by
  have perm := (filterMap_method?_perm b.items).flatMap_right b.markersOf
  rwa [List.flatMap_append] at perm

theorem markers_eq_of_aside_eq_nil (h : b.aside = []) :
    b.markers = (Source.functions b.trait).flatMap b.markersOf := by
  have sub := (filter_sublist_filterMap b.items).flatMap b.markersOf
  have perm := b.markers_perm
  rw [List.flatMap_eq_nil_iff.mpr (aside_eq_nil_iff.mp h), List.append_nil] at perm
  exact (sub.eq_of_length perm.length_eq.symm).symm

/-- What an expansion takes away are the markers of all methods exactly if no marked method was kept
as it is written. -/
theorem loses_markers_iff (named : b.generator.configuration.marker.name ≠ "") {us : List Token}
    (h : Token.Loses b.trait.tokens ((Source.functions b.trait).flatMap b.markersOf) us) :
    Token.Loses b.trait.tokens b.markers us ↔ b.aside = [] := by
  constructor
  · intro all
    -- Both removals leave the same tokens, so there are none in what only the second one removes.
    have sizes := h.sizeList_eq.symm.trans all.sizeList_eq
    rw [Token.sizeList_tokensList_of_perm b.markers_perm, Phrase.tokensList_append,
      Token.sizeList_append] at sizes
    have none := Token.eq_nil_of_sizeList_eq_zero (show Token.sizeList (Phrase.tokensList
      ((b.items.filterMap keptMethod?).flatMap b.markersOf)) = 0 by omega)
    rw [aside_eq_nil_iff]
    intro f mem
    refine List.eq_nil_iff_forall_not_mem.mpr fun q marker => ?_
    exact BoundTrait.tokens_ne_nil_of_isMarker named (List.mem_filter.mp marker).2
      (BoundTrait.tokens_eq_nil_of_mem none (List.mem_flatMap.mpr ⟨f, mem, marker⟩))
  · intro none
    rw [markers_eq_of_aside_eq_nil none]
    exact h

end Binding

namespace Expansion

variable {arguments item : String}

/-- However the expansion by an accepted configuration comes out, the trait is stripped. -/
theorem item_ofTrait (b : Binding) (text : String) :
    (ofTrait b.generator b.scope text b.trait).item = b.stripped.trait.tokens := by
  simp only [ofTrait]
  split
  · split <;> rfl
  · rfl

/-- What an expansion does to a trait. If the configuration is refused, the trait stays as it is.
If it is accepted, the trait loses the attributes that are the marker of the methods that were read
as such, and nothing else: the declarations of what is left are those of the trait without the
markers among their annotations. These attributes are the markers of all methods exactly if no
method with a visibility or a default is marked: such a method, which is kept as it is written,
keeps its markers too. -/
theorem ofTexts_item {a : BindingArguments} {p : Phrase}
    (args : BindingArguments.ofText arguments = .ok a)
    (trait : (Grammar.tokensOf item >>= Grammar.readTrait) = .ok p) :
    ∃ e, ofTexts arguments item = .ok e ∧
      (Binding.ofTexts? arguments item = none → e.item = p.tokens) ∧
      ∀ b, Binding.ofTexts? arguments item = some b → b.trait = p ∧
        e.item = b.stripped.trait.tokens ∧
        Token.Loses p.tokens ((Source.functions p).flatMap b.markersOf) e.item ∧
        b.stripped.declarations =
          b.declarations.map (Declaration.unmarked b.generator.configuration.marker) ∧
        (∀ d ∈ b.stripped.declarations, ∀ x ∈ d.annotations,
          x.isMarker b.generator.configuration.marker = false) ∧
        (Token.Loses p.tokens b.markers e.item ↔ b.aside = []) := by
  rcases ofTexts_cases args trait with ⟨refused, r, expansion⟩ | ⟨b, accepted, rfl, configured⟩
  · refine ⟨_, expansion, fun _ => rfl, fun b accepted => ?_⟩
    rw [refused] at accepted
    cases accepted
  · refine ⟨_, ofTexts_of_accepted accepted, fun refused => ?_, fun b' accepted' => ?_⟩
    · rw [refused] at accepted
      cases accepted
    · obtain rfl := Option.some.inj (accepted.symm.trans accepted')
      have isTrait := isTrait_of_ofTexts? accepted
      have loses : Token.Loses b.trait.tokens ((Source.functions b.trait).flatMap b.markersOf)
          b.stripped.trait.tokens := BoundTrait.loses_strip isTrait
      have declared : b.stripped.declarations =
          b.declarations.map (Declaration.unmarked b.generator.configuration.marker) :=
        BoundTrait.ofTrait_strip isTrait b.scope
      rw [item_ofTrait]
      refine ⟨rfl, rfl, loses, declared, ?_, Binding.loses_markers_iff
        (BindingArguments.marker_name_ne_empty
          (BindingArguments.marker_of_configuration configured)) loses⟩
      rw [declared, List.forall_mem_map]
      intro d _ x mem
      simpa using (List.mem_filter.mp mem).2

def publicMethodTrait : String :=
  "pub trait T \x7b #[expression(\"[a]\")] fn first(a: f64) -> f64; " ++
    "#[expression(\"[b]\")] pub fn second(b: f64) -> f64; \x7d"

theorem ofTexts_item_of_publicMethodTrait :
    ∃ b e, Binding.ofTexts? "" publicMethodTrait = some b ∧ ofTexts "" publicMethodTrait = .ok e ∧
      Token.Loses b.trait.tokens ((Source.functions b.trait).flatMap b.markersOf) e.item ∧
      ¬ Token.Loses b.trait.tokens b.markers e.item := by
  obtain ⟨a, args⟩ : ∃ a, BindingArguments.ofText "" = .ok a :=
    isOk_iff.mp (by decide +kernel)
  obtain ⟨p, trait⟩ : ∃ p, (Grammar.tokensOf publicMethodTrait >>= Grammar.readTrait) = .ok p :=
    isOk_iff.mp (by decide +kernel)
  have read : (Binding.ofTexts? "" publicMethodTrait).map (fun b => b.aside.length) = some 1 := by
    decide +kernel
  obtain ⟨b, accepted, one⟩ := Option.map_eq_some_iff.mp read
  obtain ⟨e, expansion, -, each⟩ := ofTexts_item args trait
  obtain ⟨rfl, -, loses, -, -, all⟩ := each b accepted
  refine ⟨b, e, accepted, expansion, loses, fun lost => ?_⟩
  rw [all.mp lost] at one
  cases one

end Expansion

end FormulaBinding
