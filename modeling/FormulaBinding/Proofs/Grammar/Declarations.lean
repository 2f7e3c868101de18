import FormulaBinding.Proofs.Grammar.Signature

/-!
# What a declaration consists of

The names in a declaration of a module or a trait, in the functions of a trait, and in what a module
contains.
-/

namespace FormulaBinding

namespace Parser

theorem Makes.mono {S : List Token → Prop} {φ ψ : Phrase → Prop} {α : Type} {p : Parser α}
    (makes : Makes S φ p) (h : ∀ q, φ q → ψ q) : Makes S ψ p where
  row inS run := by
    obtain ⟨q, row, hq⟩ := makes.row inS run
    exact ⟨q, row, h q hq⟩

/-- Whether a parser that succeeds has added a phrase of a role. -/
class Leaves (k : Kind) {α : Type} (p : Parser α) : Prop where
  row : ∀ {c a d}, p c = .ok (a, d) → ∃ q ∈ d.row, q.is k

variable {k : Kind} {α β : Type} {p : Parser α}

instance (k : Kind) : Leaves k (node k p) where
  row h := by
    obtain ⟨e, -, rfl⟩ := node_eq_ok.mp h
    exact ⟨_, List.mem_cons_self, beq_self_eq_true _⟩

instance (things : List String) : Leaves k (expected things : Parser α) := ⟨nofun⟩

instance (f : α → Parser β) [first : Leaves k p]
    [second : ∀ a, Adds (fun _ => True) Phrase.Anything (f a)] : Leaves k (p >>= f) where
  row h := by
    obtain ⟨a, e, h, h'⟩ := run_bind_eq_ok.mp h
    obtain ⟨q, mem, of_k⟩ := first.row h
    obtain ⟨ps, row, -⟩ := (second a).row trivial h'
    exact ⟨q, row ▸ List.mem_append_right ps mem, of_k⟩

instance (f : α → Parser β) [second : ∀ a, Leaves k (f a)] : Leaves k (p >>= f) where
  row h := by
    obtain ⟨a, e, -, h'⟩ := run_bind_eq_ok.mp h
    exact (second a).row h'

instance (q : Parser α) (t : Prop) [Decidable t] [first : Leaves k p] [second : Leaves k q] :
    Leaves k (if t then p else q) := by
  split <;> assumption

/-- The parts of a phrase are what is added while it is read, and some of a role are among them. -/
theorem makes_node {S : List Token → Prop} {φ : Phrase → Prop} (l : Kind) [adds : Adds S φ p]
    [leaves : Leaves k p] : Makes S (fun q => ∃ parts, q = .node l parts ∧
      (∃ q ∈ parts, q.is k) ∧ ∀ q ∈ parts, φ q) (node l p) where
  row {c a d} inS h := by
    obtain ⟨e, run, rfl⟩ := node_eq_ok.mp h
    obtain ⟨ps, row, all⟩ := adds.row (by exact inS) run
    obtain ⟨q, mem, of_k⟩ := leaves.row run
    refine ⟨_, rfl, _, rfl, ⟨q, List.mem_reverse.mpr mem, of_k⟩, fun q hq => all q ?_⟩
    rw [List.mem_reverse, row, List.append_nil] at hq
    exact hq

end Parser

namespace Grammar
open FormulaBinding.Parser FormulaBinding.Token
open Phrase (Anything)

set_option synthInstance.maxSize 100000

/-! ## Parts of declarations -/

/-- Phrases among which there are some of a role, each with a property. -/
structure Has (k : Kind) (ψ : Phrase → Prop) (parts : List Phrase) : Prop where
  some : ∃ q ∈ parts, q.is k
  all : ∀ q ∈ parts, q.is k → ψ q

theorem Has.prepend {k : Kind} {ψ : Phrase → Prop} {attributes parts : List Phrase}
    (h : Has k ψ parts) (all : ∀ q ∈ attributes, q.is .outerAttribute)
    (own : k ≠ .outerAttribute) : Has k ψ (attributes ++ parts) where
  some := by
    obtain ⟨q, mem, of_k⟩ := h.some
    exact ⟨q, List.mem_append_right _ mem, of_k⟩
  all q mem of_k := by
    rcases List.mem_append.mp mem with mem | mem
    · have both := (beq_iff_eq.mp of_k).symm.trans (beq_iff_eq.mp (all q mem))
      exact absurd (Option.some.inj both) own
    · exact h.all q mem of_k

def IsItemName (allowed : String → Prop) (p : Phrase) : Prop :=
  ∃ w e, p = .node .itemName [.token (.name w e)] ∧ allowed w

/-- A part of a declaration whose name and the content of whose groups have some properties. -/
structure IsPart (allowed : String → Prop) (content : Phrase → Prop) (p : Phrase) : Prop where
  name : p.is .itemName → IsItemName allowed p
  group : ∀ d ps o c, p = .group d ps o c → ∀ q ∈ ps, content q

variable {allowed : String → Prop} {content : Phrase → Prop}

theorem admits_isPart {k : Kind} (h : k ≠ .itemName) : Admits (IsPart allowed content) k where
  node _ := {
    name := fun same => absurd same (by simpa [Phrase.is, Phrase.kind?] using h)
    group := nofun }

instance : AdmitsTokens (IsPart allowed content) := ⟨fun _ => ⟨nofun, nofun⟩⟩
instance : Admits (IsPart allowed content) .visibility := admits_isPart (by decide)
instance : Admits (IsPart allowed content) .generics := admits_isPart (by decide)
instance : Admits (IsPart allowed content) .whereClause := admits_isPart (by decide)
instance : Admits (IsPart allowed content) .returnType := admits_isPart (by decide)
instance : Admits (IsPart allowed content) .supertraits := admits_isPart (by decide)
instance : Admits (IsPart allowed content) .functionModifier := admits_isPart (by decide)
instance : Admits (IsPart allowed content) .foreignInterface := admits_isPart (by decide)
instance : Admits (IsPart allowed content) .outerAttribute := admits_isPart (by decide)

instance (d : Delimiter) (missing : String) {α : Type} (p : Parser α)
    [adds : Adds AreProper content p] :
    Adds AreProper (IsPart allowed content) (inGroup d missing p) where
  row {c a d'} proper h := by
    obtain ⟨body, o, cl, after, inner, rest, run, rfl⟩ := inGroup_eq_ok.mp h
    rw [rest] at proper
    obtain ⟨ps, row, all⟩ := adds.row (by exact proper.1) run
    rw [show inner.row = ps from row.trans (List.append_nil ps)]
    refine ⟨[_], rfl, fun q hq => ?_⟩
    rw [List.mem_singleton.mp hq]
    refine ⟨nofun, ?_⟩
    rintro _ _ _ _ ⟨⟩ r hr
    exact all r (List.mem_reverse.mp hr)

instance {α : Type} (p : Parser α) [Adds AreProper content p] :
    Adds AreProper (IsPart allowed content) (parens p) := by
  dsimp only [parens]; infer_instance

instance {α : Type} (p : Parser α) [Adds AreProper content p] :
    Adds AreProper (IsPart allowed content) (braces p) := by
  dsimp only [braces]; infer_instance

theorem isPart_itemName {w : String} {e : Extent} (h : allowed w) :
    IsPart allowed content (.node .itemName [.token (.name w e)]) where
  name _ := ⟨w, e, rfl, h⟩
  group := nofun

theorem adds_itemName (h : ∀ w, Text.IsName w → allowed w) :
    Adds AreProper (IsPart allowed content) itemName where
  row {c a d} proper run := by
    obtain ⟨e, inner, rfl⟩ := node_eq_ok.mp run
    obtain ⟨w, at_, ts, rest, free, rfl⟩ := name_eq_ok.mp inner
    have ahead : c.rest = .name w at_ :: ts := rest
    rw [ahead] at proper
    refine ⟨[_], rfl, fun q hq => ?_⟩
    rw [List.mem_singleton.mp hq]
    exact isPart_itemName (h w ⟨proper.1, free⟩)

instance : Adds AreProper (IsPart Text.IsName content) itemName := adds_itemName fun _ h => h

instance : Leaves .itemName itemName := by dsimp only [itemName]; infer_instance

instance {S : List Token → Prop} [Ends S] : Adds S Anything itemName := by
  dsimp only [itemName]; infer_instance

variable {read : Reader} [∀ nonterminal, Advances Remains (read nonterminal)]

section
variable {S : List Token → Prop} {φ : Phrase → Prop} [Ends S] [AdmitsTokens φ]

instance [Admits φ .visibility] : Adds S φ visibility := by dsimp only [visibility]; infer_instance

instance [Admits φ .generics] : Adds S φ (generics read) := by
  dsimp only [generics]; infer_instance

instance [Admits φ .whereClause] : Adds S φ (whereClause read) := by
  dsimp only [whereClause]; infer_instance

instance (plus : Bool) [Admits φ .returnType] : Adds S φ (returnType read plus) := by
  dsimp only [returnType]; infer_instance

instance [Admits φ .foreignInterface] : Adds S φ foreignInterface := by
  dsimp only [foreignInterface]; infer_instance

end

/-! ## Signatures -/

def IsSignature (p : Phrase) : Prop :=
  ∃ parts, p = .node .signature parts ∧ Has .itemName (IsItemName Text.IsName) parts ∧
    ∀ d ps o c, .group d ps o c ∈ parts → ∀ q ∈ ps, IsInput q

theorem has_itemName {parts : List Phrase} (some : ∃ q ∈ parts, q.is .itemName)
    (all : ∀ q ∈ parts, IsPart allowed content q) : Has .itemName (IsItemName allowed) parts :=
  ⟨some, fun q hq => (all q hq).name⟩

instance [Makes AreProper IsPattern (read .pattern)]
    [Makes AreProper Anything (read (.type true))] (safe : Bool) :
    Makes AreProper IsSignature (signature read safe) := by
  dsimp only [signature]
  refine (makes_node (k := .itemName) (φ := IsPart Text.IsName IsInput) _).mono ?_
  rintro _ ⟨parts, rfl, some, all⟩
  refine ⟨parts, rfl, has_itemName some all, fun d ps o c mem => ?_⟩
  exact (all _ mem).group d ps o c rfl

/-! ## Traits -/

/-- What stands behind the signature of a function: a block, or a mark. -/
inductive IsFunctionBody : Phrase → Prop
  | block (parts : List Phrase) (o c : Extent) : IsFunctionBody (.group .brace parts o c)
  | mark (t : Token) : IsFunctionBody (.token t)

/-- What is read as a function of a trait: attributes, a signature, and a block or a mark. -/
def IsFunction (p : Phrase) : Prop :=
  ∃ attributes signature body, p = .node .functionItem (attributes ++ [signature, body]) ∧
    (∀ q ∈ attributes, q.is .outerAttribute) ∧ IsSignature signature ∧ IsFunctionBody body

def IsTraitMember (p : Phrase) : Prop := p.is .functionItem → IsFunction p

instance : AdmitsTokens IsTraitMember := ⟨fun _ => nofun⟩
instance : Admits IsTraitMember .innerAttribute := ⟨fun _ => nofun⟩
instance : Admits IsTraitMember .constItem := ⟨fun _ => nofun⟩
instance : Admits IsTraitMember .typeItem := ⟨fun _ => nofun⟩
instance : Admits IsTraitMember .macroItem := ⟨fun _ => nofun⟩
instance : Admits IsTraitMember .verbatimItem := ⟨fun _ => nofun⟩

instance {S : List Token → Prop} {φ : Phrase → Prop} [Ends S] [Admits φ .innerAttribute] :
    Adds S φ (innerAttributes read) := by
  dsimp only [innerAttributes]; infer_instance

variable [Makes AreProper IsPattern (read .pattern)]
  [Makes AreProper Anything (read (.type true))]

instance : Makes AreProper IsFunction (traitMethod read) where
  row {c u d} proper h := by
    obtain ⟨e, run, rfl⟩ := node_eq_ok.mp h
    obtain ⟨_, c₁, read, run⟩ := run_bind_eq_ok.mp run
    obtain ⟨_, read⟩ := discard_eq_ok.mp read
    obtain ⟨s, row, isSignature⟩ : ∃ q, c₁.row = q :: [] ∧ IsSignature q :=
      Makes.row (by exact proper) read
    refine ⟨_, rfl, [], s, ?_⟩
    obtain ⟨_, _, peeked, run⟩ := run_bind_eq_ok.mp run
    cases peeked
    split at run
    · obtain ⟨_, o, cl, _, content, -, -, rfl⟩ := inGroup_eq_ok.mp run
      exact ⟨.group .brace content.row.reverse o cl, by simp [row], List.forall_mem_nil _,
        isSignature, .block _ _ _⟩
    obtain ⟨_, _, peeked, run⟩ := run_bind_eq_ok.mp run
    cases peeked
    split at run
    · obtain ⟨_, at_, _, -, rfl⟩ := (mark_eq_ok ';' rfl).mp run
      exact ⟨.token (.mark ';' false at_), by simp [row], List.forall_mem_nil _, isSignature,
        .mark _⟩
    · cases run

instance : Makes AreProper IsTraitMember (traitMethod read) :=
  have makes : Makes AreProper IsFunction (traitMethod read) := inferInstance
  makes.mono fun _ h _ => h

theorem isTraitMember_prepend {k : Kind} {attributes parts : List Phrase}
    (h : IsTraitMember (.node k parts)) (all : ∀ q ∈ attributes, q.is .outerAttribute) :
    IsTraitMember (.node k (attributes ++ parts)) := by
  intro function
  obtain ⟨others, s, body, ⟨⟩, outer, isSignature, isBody⟩ := h function
  refine ⟨attributes ++ others, s, body, by rw [List.append_assoc], fun q mem => ?_, isSignature,
    isBody⟩
  exact (List.mem_append.mp mem).elim (all q) (outer q)

instance {S : List Token → Prop} {φ : Phrase → Prop} [Ends S] [Admits φ .macroItem]
    (named : Bool) : Makes S φ (macroItem named) := by
  dsimp only [macroItem]; infer_instance

theorem row_of_prepend {attributes row : List Phrase} {q : Phrase} {c d : Cursor} {u : Unit}
    (last : c.row = q :: row) (h : prepend attributes c = .ok (u, d)) :
    (∃ k parts, q = .node k parts ∧ d.row = .node k (attributes ++ parts) :: row) ∨
      d.row = q :: row := by
  rcases c with ⟨rest, inside, leftover, row'⟩
  cases last
  cases h
  cases q with
  | node k parts => exact .inl ⟨k, parts, rfl, rfl⟩
  | _ => exact .inr rfl

instance : Makes AreProper IsTraitMember (traitItem read) where
  row {c u d} proper h := by
    obtain ⟨_, _, got, h⟩ := run_bind_eq_ok.mp h
    cases got
    obtain ⟨⟨_, attributes⟩, c₁, collected, h⟩ := run_bind_eq_ok.mp h
    obtain ⟨⟨_, modifiers⟩, c₂, visible, h⟩ := run_bind_eq_ok.mp h
    have left₁ : Remains _ c₁.rest := Advances.rest collected
    have left₂ : Remains _ c₂.rest := Advances.rest visible
    have proper₂ : AreProper c₂.rest := areProper_of_suffix proper (left₂.trans left₁)
    have row₂ : c₂.row = c.row := (Silent.row visible).trans (Silent.row collected)
    have all : ∀ q ∈ attributes, q.is .outerAttribute :=
      forall_of_collect (ψ := fun q => q.is .outerAttribute) proper collected
    obtain ⟨ts, _, got, h⟩ := run_bind_eq_ok.mp h
    cases got
    -- What was made is kept with its attributes, or the whole as it is written.
    have finish {kept : Bool} {e : Cursor} {q : Phrase} (row : e.row = q :: c₂.row)
        (hq : IsTraitMember q)
        (h : (if (modifiers.isEmpty && kept) = true then prepend attributes
          else do
            modify fun after => { after with row := c.row }
            emitWritten .verbatimItem c.rest : Parser Unit) e = .ok (u, d)) :
        ∃ q, d.row = q :: c.row ∧ IsTraitMember q := by
      rw [row₂] at row
      split at h
      · rcases row_of_prepend row h with ⟨k, parts, rfl, row'⟩ | row'
        · exact ⟨_, row', isTraitMember_prepend hq all⟩
        · exact ⟨q, row', hq⟩
      · cases h
        exact ⟨_, rfl, Admits.node _⟩
    dsimp only at h
    have step {p : Parser Unit} {kept : Bool} [Makes AreProper IsTraitMember p]
        (h : (p >>= fun _ => if (modifiers.isEmpty && kept) = true then prepend attributes
          else do
            modify fun after => { after with row := c.row }
            emitWritten .verbatimItem c.rest : Parser Unit) c₂ = .ok (u, d)) :
        ∃ q, d.row = q :: c.row ∧ IsTraitMember q := by
      obtain ⟨_, e, made, h⟩ := run_bind_eq_ok.mp h
      obtain ⟨q, row, hq⟩ := Makes.row (φ := IsTraitMember) proper₂ made
      exact finish row hq h
    split at h
    · exact step h
    split at h
    · split at h
      · obtain ⟨⟨whole, parts⟩, c₃, read, h⟩ := run_bind_eq_ok.mp h
        obtain ⟨_, _, emitted, h⟩ := run_bind_eq_ok.mp h
        cases emitted
        exact finish (congrArg _ (Silent.row read)) (Admits.node _) h
      · split at h
        · exact step h
        · cases h
    split at h
    · exact step h
    split at h
    · exact step h
    · cases h

instance : Adds AreProper (IsPart Text.IsName IsTraitMember) (restOfTrait read) := by
  have each : Adds AreProper IsTraitMember (traitItem read) := Makes.adds inferInstance
  dsimp only [restOfTrait]
  infer_instance

instance {S : List Token → Prop} [Ends S] : Adds S Anything (restOfTrait read) := by
  dsimp only [restOfTrait]; infer_instance

/-! ## Items -/

def IsModuleName (w : String) : Prop := Text.IsName w ∨ w = "try"

/-- What is read as an item. Of an item that is neither a module nor a trait nothing is said. -/
inductive IsItem : Phrase → Prop
  | module {parts : List Phrase} (name : Has .itemName (IsItemName IsModuleName) parts)
      (content : ∀ d ps o c, .group d ps o c ∈ parts → ∀ q ∈ ps, IsItem q) :
      IsItem (.node .moduleItem parts)
  | trait {parts : List Phrase} (name : Has .itemName (IsItemName Text.IsName) parts)
      (content : ∀ d ps o c, .group d ps o c ∈ parts → ∀ q ∈ ps, IsTraitMember q) :
      IsItem (.node .traitItem parts)
  | other {p : Phrase} (notModule : p.is .moduleItem = false) (notTrait : p.is .traitItem = false) :
      IsItem p

theorem admits_isItem {k : Kind} (h : k ≠ .moduleItem) (h' : k ≠ .traitItem) : Admits IsItem k where
  node _ := .other (by simpa [Phrase.is, Phrase.kind?] using h)
    (by simpa [Phrase.is, Phrase.kind?] using h')

instance : AdmitsTokens IsItem := ⟨fun _ => .other rfl rfl⟩
instance : Admits IsItem .innerAttribute := admits_isItem (by decide) (by decide)
instance : Admits IsItem .functionItem := admits_isItem (by decide) (by decide)
instance : Admits IsItem .externCrateItem := admits_isItem (by decide) (by decide)
instance : Admits IsItem .foreignItem := admits_isItem (by decide) (by decide)
instance : Admits IsItem .useItem := admits_isItem (by decide) (by decide)
instance : Admits IsItem .staticItem := admits_isItem (by decide) (by decide)
instance : Admits IsItem .constItem := admits_isItem (by decide) (by decide)
instance : Admits IsItem .typeItem := admits_isItem (by decide) (by decide)
instance : Admits IsItem .structItem := admits_isItem (by decide) (by decide)
instance : Admits IsItem .enumItem := admits_isItem (by decide) (by decide)
instance : Admits IsItem .unionItem := admits_isItem (by decide) (by decide)
instance : Admits IsItem .traitAliasItem := admits_isItem (by decide) (by decide)
instance : Admits IsItem .implItem := admits_isItem (by decide) (by decide)
instance : Admits IsItem .macroItem := admits_isItem (by decide) (by decide)
instance : Admits IsItem .verbatimItem := admits_isItem (by decide) (by decide)

theorem isItem_trait {parts : List Phrase} (some : ∃ q ∈ parts, q.is .itemName)
    (all : ∀ q ∈ parts, IsPart Text.IsName IsTraitMember q) : IsItem (.node .traitItem parts) :=
  .trait (has_itemName some all) fun d ps o c mem => (all _ mem).group d ps o c rfl

instance : Makes AreProper IsItem (traitDeclaration read) := by
  dsimp only [traitDeclaration]
  refine (makes_node (k := .itemName) (φ := IsPart Text.IsName IsTraitMember) _).mono ?_
  rintro _ ⟨parts, rfl, some, all⟩
  exact isItem_trait some all

/-- A trait, and not a name for bounds, is read like any declaration of a trait. -/
instance : Makes AreProper IsItem (traitOrAlias read) where
  row {c u d} proper h := by
    obtain ⟨⟨isAlias, parts⟩, _, collected, h⟩ := run_bind_eq_ok.mp h
    obtain ⟨e, run, same, rfl⟩ := collect_eq_ok.mp collected
    cases h
    refine ⟨_, rfl, ?_⟩
    obtain ⟨_, c₁, h₁, run⟩ := run_bind_eq_ok.mp run
    obtain ⟨_, c₂, h₂, run⟩ := run_bind_eq_ok.mp run
    obtain ⟨_, c₃, h₃, run⟩ := run_bind_eq_ok.mp run
    obtain ⟨_, c₄, h₄, run⟩ := run_bind_eq_ok.mp run
    obtain ⟨_, _, peeked, run⟩ := run_bind_eq_ok.mp run
    cases peeked
    obtain ⟨_, _, peeked, run⟩ := run_bind_eq_ok.mp run
    cases peeked
    obtain ⟨_, _, peeked, run⟩ := run_bind_eq_ok.mp run
    cases peeked
    split at run
    · obtain ⟨_, c₅, h₅, run⟩ := run_bind_eq_ok.mp run
      cases run
      let trait : Parser Unit := do
        visibility
        word "trait"
        itemName
        discard (generics read)
        restOfTrait read
      have adds : Adds AreProper (IsPart Text.IsName IsTraitMember) trait := inferInstance
      have whole : trait { c with row := [] } = .ok ((), e) :=
        run_bind_eq_ok.mpr ⟨_, c₁, h₁, run_bind_eq_ok.mpr ⟨_, c₂, h₂,
          run_bind_eq_ok.mpr ⟨_, c₃, h₃, run_bind_eq_ok.mpr ⟨_, c₄, h₄, h₅⟩⟩⟩⟩
      have leaves : Leaves .itemName trait := inferInstance
      obtain ⟨ps, row, all⟩ := adds.row (by exact proper) whole
      obtain ⟨name, mem, is⟩ := leaves.row whole
      have parts : parts = ps.reverse := by
        rw [show parts = e.row.reverse from same, row, List.append_nil]
      rw [row, List.append_nil] at mem
      refine isItem_trait ⟨name, by rwa [parts, List.mem_reverse], is⟩ fun q hq => all q ?_
      rwa [parts, List.mem_reverse] at hq
    · obtain ⟨_, _, -, run⟩ := run_bind_eq_ok.mp run
      split at run
      · obtain ⟨_, _, -, run⟩ := run_bind_eq_ok.mp run
        obtain ⟨_, _, -, run⟩ := run_bind_eq_ok.mp run
        obtain ⟨_, _, -, run⟩ := run_bind_eq_ok.mp run
        cases run
        exact Admits.node (k := .traitAliasItem) _
      · cases run

theorem adds_moduleName (further : Unit → Parser Unit)
    [adds : ∀ u, Adds AreProper (IsPart IsModuleName content) (further u)] :
    Adds AreProper (IsPart IsModuleName content) (do
      if ← peek (Ahead.word "try") then node .itemName anyName >>= further
      else itemName >>= further) where
  row {c u d} proper h := by
    obtain ⟨_, _, peeked, h⟩ := run_bind_eq_ok.mp h
    cases peeked
    split at h
    · rename_i seen
      obtain ⟨e, ts, rest⟩ := ahead_word_eq_true.mp seen
      obtain ⟨_, _, made, h⟩ := run_bind_eq_ok.mp h
      obtain ⟨c₁, read, rfl⟩ := node_eq_ok.mp made
      obtain ⟨w, e', ts', rest', rfl⟩ := anyName_eq_ok.mp read
      rw [show c.rest = .name w e' :: ts' from rest'] at rest proper
      cases rest
      obtain ⟨ps, row, all⟩ := (adds _).row (by exact proper.2) h
      refine ⟨ps ++ [.node .itemName [.token (.name "try" e)]], by simp [row], fun q hq => ?_⟩
      rcases List.mem_append.mp hq with hq | hq
      · exact all q hq
      · rw [List.mem_singleton.mp hq]
        exact isPart_itemName (.inr rfl)
    · have name : Adds AreProper (IsPart IsModuleName content) itemName :=
        adds_itemName fun _ => .inl
      exact (name.bind adds).row proper h

instance [Adds AreProper IsItem (read .item)] : Makes AreProper IsItem (moduleDeclaration read) := by
  dsimp only [moduleDeclaration]
  have parts : Adds AreProper (IsPart IsModuleName IsItem) (do
      visibility
      discard (word? "unsafe")
      word "mod"
      if ← peek (Ahead.word "try") then node .itemName anyName else itemName
      if ← peek (Ahead.mark ";") then mark ";"
      else if ← peek (Ahead.group .brace) then
        braces do
          innerAttributes read
          untilEnd (read .item)
      else expected ["`;`", "curly braces"]) :=
    .bind inferInstance fun _ => .bind inferInstance fun _ => .bind inferInstance fun _ =>
      adds_moduleName _
  refine (makes_node (k := .itemName) (φ := IsPart IsModuleName IsItem) _).mono ?_
  rintro _ ⟨parts, rfl, some, all⟩
  exact .module (has_itemName some all) fun d ps o c mem => (all _ mem).group d ps o c rfl

section
variable {S : List Token → Prop} [Ends S]

omit [Makes AreProper IsPattern (read .pattern)] [Makes AreProper Anything (read (.type true))]

instance : Makes S IsItem externCrate := by dsimp only [externCrate]; infer_instance

instance : Makes S IsItem (foreignDeclaration read) := by
  dsimp only [foreignDeclaration]; infer_instance

instance : Makes S IsItem (structDeclaration read) := by
  dsimp only [structDeclaration]; infer_instance

instance : Makes S IsItem (enumDeclaration read) := by
  dsimp only [enumDeclaration]; infer_instance

instance : Makes S IsItem (unionDeclaration read) := by
  dsimp only [unionDeclaration]; infer_instance

instance : Makes S IsItem (useDeclaration read) := by
  dsimp only [useDeclaration]; infer_instance

omit [Ends S] [∀ nonterminal, Advances Remains (read nonterminal)] in
instance : Makes S IsItem (implDeclaration read) where
  row _ h := by
    obtain ⟨_, _, got, h⟩ := run_bind_eq_ok.mp h
    cases got
    obtain ⟨⟨whole, parts⟩, _, collected, h⟩ := run_bind_eq_ok.mp h
    obtain ⟨e, -, -, rfl⟩ := collect_eq_ok.mp collected
    cases whole <;> cases h <;> exact ⟨_, rfl, Admits.node _⟩

end

instance [Adds AreProper IsItem (read .item)] :
    Makes AreProper IsItem (itemAfterAttributes read) := by
  dsimp only [itemAfterAttributes]
  repeat' first
    | infer_instance
    | refine .bind_remakes inferInstance fun _ => inferInstance
    | refine .bind fun _ => ?_
    | refine .ite ?_ ?_

theorem isItem_prepend {k : Kind} {attributes parts : List Phrase} (h : IsItem (.node k parts))
    (all : ∀ q ∈ attributes, q.is .outerAttribute) : IsItem (.node k (attributes ++ parts)) := by
  have group {d : Delimiter} {ps : List Phrase} {o c : Extent}
      (mem : .group d ps o c ∈ attributes ++ parts) : .group d ps o c ∈ parts :=
    (List.mem_append.mp mem).resolve_left fun mem => nomatch all _ mem
  cases h with
  | module name content =>
    exact .module (name.prepend all (by decide)) fun d ps o c mem => content d ps o c (group mem)
  | trait name content =>
    exact .trait (name.prepend all (by decide)) fun d ps o c mem => content d ps o c (group mem)
  | other notModule notTrait => exact .other notModule notTrait

instance [Adds AreProper IsItem (read .item)] : Makes AreProper IsItem (item read) where
  row {c u d} proper h := by
    obtain ⟨_, _, got, h⟩ := run_bind_eq_ok.mp h
    cases got
    obtain ⟨⟨_, attributes⟩, c₁, collected, h⟩ := run_bind_eq_ok.mp h
    have left : Remains _ c₁.rest := Advances.rest collected
    have row₁ : c₁.row = c.row := Silent.row collected
    have all : ∀ q ∈ attributes, q.is .outerAttribute :=
      forall_of_collect (ψ := fun q => q.is .outerAttribute) proper collected
    obtain ⟨kept, c₂, made, h⟩ := run_bind_eq_ok.mp h
    obtain ⟨q, row, hq⟩ := Makes.row (φ := IsItem) (areProper_of_suffix proper left) made
    rw [row₁] at row
    obtain ⟨_, _, got, h⟩ := run_bind_eq_ok.mp h
    cases got
    split at h
    · rcases row_of_prepend row h with ⟨k, parts, rfl, row'⟩ | row'
      · exact ⟨_, row', isItem_prepend hq all⟩
      · exact ⟨q, row', hq⟩
    · cases h
      exact ⟨_, rfl, Admits.node _⟩

/-! ## Whole files -/

instance (n : Nat) : Makes AreProper IsPattern (reader n .pattern) := by
  induction n with
  | zero => dsimp only [reader]; infer_instance
  | succ n ih => dsimp only [reader, rule]; infer_instance

instance (n : Nat) (plus : Bool) : Makes AreProper Anything (reader n (.type plus)) := by
  cases n with
  | zero => dsimp only [reader]; infer_instance
  | succ n => dsimp only [reader, rule]; infer_instance

instance (n : Nat) : Adds AreProper IsItem (reader n .item) := by
  induction n with
  | zero => dsimp only [reader]; infer_instance
  | succ n ih =>
    have makes : Makes AreProper IsItem (item (reader n)) := inferInstance
    exact makes.adds

theorem isItem_of_readFileTokens {ts : List Token} {items : List Phrase} (proper : AreProper ts)
    (h : readFileTokens ts = .ok items) : ∃ row : List Phrase, items = row.map written ∧ ∀ q ∈ row, IsItem q := by
  obtain ⟨⟨_, row⟩, run, h⟩ := bind_eq_ok.mp h
  obtain ⟨d, run, -, -, same⟩ := runAll_eq_ok.mp run
  cases h
  have adds : Adds AreProper IsItem (do
    innerAttributes (reader (depth ts))
    untilEnd (reader (depth ts) .item)) := inferInstance
  obtain ⟨ps, added, all⟩ := adds.row (by exact proper) run
  refine ⟨row, rfl, fun q hq => all q ?_⟩
  rw [same, added, List.append_nil, List.mem_reverse] at hq
  exact hq

end Grammar
end FormulaBinding
