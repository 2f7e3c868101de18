import FormulaBinding.Proofs.Declaration.Names

/-!
# What a trait consists of

A trait that is read by itself ends with its only group, the braces around its members. A method in
it consists of attributes, a signature and either a block or a mark. The trait and the methods have
names.
-/

namespace FormulaBinding

namespace Parser

def IsOpen (p : Phrase) : Prop := ∀ d ps o c, p ≠ .group d ps o c

instance : AdmitsTokens IsOpen := ⟨fun _ => nofun⟩
instance (k : Kind) : Admits IsOpen k := ⟨fun _ => nofun⟩

/-- Whether a parser that succeeds ends with a group, whose members have a property, behind phrases
that are no groups. -/
class EndsInGroup (S : List Token → Prop) (ψ : Phrase → Prop) (e : Delimiter) {α : Type}
    (p : Parser α) : Prop where
  row : ∀ {c a d}, S c.rest → p c = .ok (a, d) → ∃ items o cl front,
    d.row = .group e items o cl :: (front ++ c.row) ∧ (∀ q ∈ front, IsOpen q) ∧ ∀ q ∈ items, ψ q

variable {S : List Token → Prop} {ψ : Phrase → Prop} {e : Delimiter} {α β : Type} {p : Parser α}

instance (f : α → Parser β) [Ends S] [Advances Remains p] [first : Adds S IsOpen p]
    [second : ∀ a, EndsInGroup S ψ e (f a)] : EndsInGroup S ψ e (p >>= f) where
  row {c b d} inS h := by
    obtain ⟨a, c₁, read, h⟩ := run_bind_eq_ok.mp h
    have left : Remains _ c₁.rest := Advances.rest read
    obtain ⟨before, row₁, open₁⟩ := first.row inS read
    obtain ⟨items, o, cl, front, row, open₂, all⟩ := (second a).row (Ends.suffix inS left) h
    refine ⟨items, o, cl, front ++ before, ?_, fun q mem => ?_, all⟩
    · rw [row, row₁, List.append_assoc]
    · exact (List.mem_append.mp mem).elim (open₂ q) (open₁ q)

instance (q : Parser α) (t : Prop) [Decidable t] [first : EndsInGroup S ψ e p]
    [second : EndsInGroup S ψ e q] : EndsInGroup S ψ e (if t then p else q) := by
  split <;> assumption

instance (missing : String) [adds : Adds Token.AreProper ψ p] :
    EndsInGroup Token.AreProper ψ e (inGroup e missing p) where
  row {c a d} proper h := by
    obtain ⟨body, o, cl, after, inner, rest, run, rfl⟩ := inGroup_eq_ok.mp h
    rw [rest] at proper
    obtain ⟨ps, row, all⟩ := adds.row (by exact proper.1) run
    refine ⟨inner.row.reverse, o, cl, [], rfl, List.forall_mem_nil _, fun q mem => all q ?_⟩
    rwa [List.mem_reverse, row, List.append_nil] at mem

instance [Adds Token.AreProper ψ p] : EndsInGroup Token.AreProper ψ .brace (braces p) := by
  dsimp only [braces]; infer_instance

end Parser

namespace Grammar
open FormulaBinding.Parser FormulaBinding.Token Source
open Phrase (Anything)

set_option synthInstance.maxSize 100000

/-! ## Traits and their methods -/

/-- A method as it is written: attributes, a signature with a name, and a block or a mark. -/
inductive IsMethod : Phrase → Prop
  | intro {attributes : List Phrase} {signature body : Phrase} {w : String} {e : Extent}
      (outer : ∀ q ∈ attributes, q.is .outerAttribute) (isSignature : signature.is .signature)
      (name : signature.child? .itemName = some (.node .itemName [.token (.name w e)]))
      (isName : Text.IsName w) (isBody : IsFunctionBody body) :
      IsMethod (.node .functionItem (attributes ++ [signature, body]))

/-- A trait as it is written: what stands in front of its members, among it a name, and braces
around the members. -/
inductive IsTrait : Phrase → Prop
  | intro {front items : List Phrase} {o c : Extent} {w : String} {e : Extent}
      (isOpen : ∀ q ∈ front, IsOpen q)
      (name : (Phrase.node .traitItem (front ++ [.group .brace items o c])).child? .itemName =
        some (.node .itemName [.token (.name w e)]))
      (isName : Text.IsName w) (methods : ∀ q ∈ items, q.is .functionItem → IsMethod q) :
      IsTrait (.node .traitItem (front ++ [.group .brace items o c]))

variable {n : Nat} {p : Phrase}

theorem IsFunctionBody.writeTo (h : IsFunctionBody p) : IsFunctionBody (writeTo n {} p) := by
  cases h with
  | block parts o c => rw [writeTo_group]; exact .block _ _ _
  | mark t => rw [writeTo_token]; exact .mark t

theorem IsFunctionBody.not_is (h : IsFunctionBody p) (k : Kind) : p.is k = false := by
  cases h <;> rfl

theorem isOpen_writeTo (h : IsOpen p) : IsOpen (writeTo n {} p) := by
  intro d ps o c same
  obtain ⟨qs, rfl, -⟩ := writeTo_eq_group same
  exact h _ _ _ _ rfl

theorem attributesFirst_append {attributes own : List Phrase}
    (outer : ∀ q ∈ attributes, q.is .outerAttribute)
    (other : ∀ q ∈ own, q.is .outerAttribute = false) :
    attributesFirst (attributes ++ own) = attributes ++ own := by
  have all : attributes.filter (Phrase.is .outerAttribute) = attributes :=
    List.filter_eq_self.mpr outer
  have none : attributes.filter (!Phrase.is .outerAttribute ·) = [] := by
    rw [List.filter_eq_nil_iff]
    exact fun q mem => by rw [outer q mem]; exact Bool.false_ne_true
  have same := attributesFirst_of_forall other
  rw [attributesFirst] at same ⊢
  rw [List.filter_append, List.filter_append, all, none, List.append_assoc, List.nil_append, same]

/-- A function that was read is a method, however its operands are written. -/
theorem IsFunction.isMethod (h : IsFunction p) : IsMethod (writeTo n {} p) := by
  obtain ⟨attributes, _, body, rfl, outer, ⟨parts, rfl, name, -⟩, isBody⟩ := h
  have own : ∀ q ∈ [.node .signature parts, body], q.is .outerAttribute = false := by
    simpa using ⟨rfl, isBody.not_is _⟩
  have written (m : Nat) : IsMethod (.node .functionItem (attributes.map (writeTo m {}) ++
      [writeTo m {} (.node .signature parts), writeTo m {} body])) := by
    obtain ⟨w, e, isName, child⟩ := itemName_writeTo (k := .signature) (n := m) (by decide) name
    refine .intro (fun q mem => ?_) ?_ child isName isBody.writeTo
    · obtain ⟨a, inside, rfl⟩ := List.mem_map.mp mem
      rw [is_writeTo a (by decide) (by decide)]
      exact outer a inside
    · rw [is_writeTo _ (by decide) (by decide)]
      rfl
  cases n with
  | zero =>
    have same := written 0
    rwa [map_writeTo_zero] at same
  | succ n =>
    rw [writeTo_succ_node (by decide), attributesFirst_append outer own, List.map_append]
    exact written n

instance {S : List Token → Prop} {φ : Phrase → Prop} [Ends S] [Admits φ .itemName] :
    Adds S φ itemName := by
  dsimp only [itemName]; infer_instance

section
variable {read : Reader} [∀ nonterminal, Advances Remains (read nonterminal)]
  [Makes AreProper IsPattern (read .pattern)] [Makes AreProper Anything (read (.type true))]

instance : EndsInGroup AreProper IsTraitMember .brace (restOfTrait read) := by
  have each : Adds AreProper IsTraitMember (traitItem read) := Makes.adds inferInstance
  dsimp only [restOfTrait]
  infer_instance

/-- What is read as a trait, before it is written. -/
inductive IsReadTrait : Phrase → Prop
  | intro {front items : List Phrase} {o c : Extent} (isOpen : ∀ q ∈ front, IsOpen q)
      (name : Has .itemName (IsItemName Text.IsName) (front ++ [.group .brace items o c]))
      (members : ∀ q ∈ items, IsTraitMember q) :
      IsReadTrait (.node .traitItem (front ++ [.group .brace items o c]))

instance : Makes AreProper IsReadTrait (traitDeclaration read) where
  row {c u d} proper h := by
    rw [traitDeclaration] at h
    obtain ⟨e, run, rfl⟩ := node_eq_ok.mp h
    obtain ⟨items, o, cl, front, row, isOpen, members⟩ :=
      EndsInGroup.row (ψ := IsTraitMember) (e := .brace) (by exact proper) run
    obtain ⟨ps, row', parts⟩ :=
      Adds.row (φ := IsPart Text.IsName IsTraitMember) (by exact proper) run
    obtain ⟨q, mem, named⟩ := Leaves.row (k := .itemName) run
    have all : ∀ q ∈ e.row, IsPart Text.IsName IsTraitMember q := fun q mem =>
      parts q (by rwa [row', List.append_nil] at mem)
    have name := has_itemName ⟨q, List.mem_reverse.mpr mem, named⟩
      fun q mem => all q (List.mem_reverse.mp mem)
    have whole : e.row.reverse = front.reverse ++ [.group .brace items o cl] := by simp [row]
    rw [whole] at name ⊢
    exact ⟨_, rfl, .intro (fun q mem => isOpen q (List.mem_reverse.mp mem)) name members⟩

end

/-- A trait that was read is one, however its operands are written. -/
theorem IsReadTrait.isTrait (h : IsReadTrait p) : IsTrait (writeTo n {} p) := by
  obtain @⟨front, items, o, c, isOpen, name, members⟩ := h
  obtain ⟨w, e, isName, child⟩ := itemName_writeTo (k := .traitItem) (n := n) (by decide) name
  have methods (m : Nat) : ∀ q ∈ items.map (writeTo m {}), q.is .functionItem → IsMethod q := by
    intro q mem isFunction
    obtain ⟨p, inside, rfl⟩ := List.mem_map.mp mem
    rw [is_writeTo p (by decide) (by decide)] at isFunction
    exact IsFunction.isMethod (members p inside isFunction)
  -- To the depth zero a trait is left as it is; otherwise its parts are written to one less.
  cases n with
  | zero =>
    have same := methods 0
    rw [map_writeTo_zero] at same
    exact .intro isOpen child isName same
  | succ n =>
    have ends : attributesFirst (front ++ [.group .brace items o c]) =
        attributesFirst front ++ [.group .brace items o c] := by
      simp [attributesFirst, Phrase.is, Phrase.kind?]
    rw [writeTo_succ_node (by decide), ends, List.map_append, List.map_singleton,
      writeTo_group] at child ⊢
    refine .intro (fun q mem => ?_) child isName (methods _)
    obtain ⟨p, inside, rfl⟩ := List.mem_map.mp mem
    exact isOpen_writeTo (isOpen p (mem_attributesFirst.mp inside))

theorem exists_isReadTrait {ts : List Token} (proper : AreProper ts)
    (h : readTrait ts = .ok p) : ∃ n q, IsReadTrait q ∧ p = writeTo n {} q := by
  rw [readTrait, readPhrase] at h
  obtain ⟨⟨_, row⟩, whole, h⟩ := bind_eq_ok.mp h
  obtain ⟨d, run, -, -, rfl⟩ := runAll_eq_ok.mp whole
  have start : AreProper ({ rest := ts } : Cursor).rest := proper
  obtain ⟨q, row, isRead⟩ := Makes.row (φ := IsReadTrait) start run
  rw [row] at h
  cases h
  exact ⟨_, q, isRead, rfl⟩

theorem isTrait_of_readTrait {ts : List Token} (proper : AreProper ts)
    (h : readTrait ts = .ok p) : IsTrait p := by
  obtain ⟨n, q, isRead, rfl⟩ := exists_isReadTrait proper h
  exact isRead.isTrait

/-- The methods of a trait that was read are written as they were read. -/
theorem IsReadTrait.exists_function (h : IsReadTrait p) {f : Phrase}
    (mem : f ∈ functions (writeTo n {} p)) : ∃ m q, IsFunction q ∧ f = writeTo m {} q := by
  obtain @⟨front, items, o, c, isOpen, -, members⟩ := h
  refine exists_traitMember (fun d ps o' c' inside => ?_) mem
  rcases List.mem_append.mp inside with inside | inside
  · exact absurd rfl (isOpen _ inside d ps o' c')
  · cases List.mem_singleton.mp inside
    exact members

/-! ## Parts of traits and methods -/

section
variable {attributes front items : List Phrase} {signature body : Phrase} {o c : Extent}

/-- What stands between the braces of a phrase that is a group of braces. -/
def block? : Phrase → Option (List Phrase)
  | .group .brace parts _ _ => some parts
  | _ => none

theorem isOpen_of_is {k : Kind} (h : p.is k) : IsOpen p := by
  rintro d ps o c rfl
  cases h

theorem groupParts?_concat {front : List Phrase} (isOpen : ∀ q ∈ front, IsOpen q) (k : Kind)
    (p : Phrase) : (Phrase.node k (front ++ [p])).groupParts? .brace = block? p := by
  rw [Phrase.groupParts?, Phrase.parts, List.findSome?_append, List.findSome?_eq_none_iff.mpr,
    Option.none_or, List.findSome?_singleton]
  · rcases p with _ | ⟨_ | _ | _, _, _, _⟩ | _ <;> rfl
  · intro q mem
    cases q with
    | group d ps o c => exact absurd rfl (isOpen _ mem d ps o c)
    | _ => rfl

section
variable (outer : ∀ q ∈ attributes, q.is .outerAttribute) (isSignature : signature.is .signature)
include outer isSignature

theorem groupParts?_method :
    (Phrase.node .functionItem (attributes ++ [signature, body])).groupParts? .brace =
      block? body := by
  have isOpen : ∀ q ∈ attributes ++ [signature], IsOpen q := by
    intro q mem
    rcases List.mem_append.mp mem with mem | mem
    · exact isOpen_of_is (outer q mem)
    · exact isOpen_of_is (List.mem_singleton.mp mem ▸ isSignature)
  rw [List.append_cons]
  exact groupParts?_concat isOpen .functionItem body

theorem child?_method (body : Phrase) :
    (Phrase.node .functionItem (attributes ++ [signature, body])).child? .signature =
      some signature := by
  rw [Phrase.child?, Phrase.parts, find?_append_of_outer (by decide) outer,
    List.find?_cons_of_pos isSignature]

theorem attributes_method (isBody : IsFunctionBody body) :
    Source.attributes (.node .functionItem (attributes ++ [signature, body])) =
      attributes ++ ((block? body).getD []).filter (Phrase.is .innerAttribute) := by
  have other : signature.is .outerAttribute = false := by
    rw [Phrase.is, beq_iff_eq.mp isSignature]
    rfl
  have first : (Phrase.node .functionItem (attributes ++ [signature, body])).children
      .outerAttribute = attributes := by
    rw [Phrase.children, Phrase.parts, List.filter_append, List.filter_eq_self.mpr outer,
      List.filter_cons_of_neg (by simp [other]), List.filter_cons_of_neg (by simp [isBody.not_is])]
    exact List.append_nil attributes
  rw [Source.attributes, first, groupParts?_method outer isSignature]

end

theorem functions_trait (isOpen : ∀ q ∈ front, IsOpen q) :
    functions (.node .traitItem (front ++ [.group .brace items o c])) =
      items.filter (Phrase.is .functionItem) := by
  rw [functions, groupParts?_concat isOpen]
  rfl

theorem IsTrait.isMethod (h : IsTrait p) : ∀ f ∈ functions p, IsMethod f := by
  obtain @⟨_, _, _, _, _, _, isOpen, -, -, methods⟩ := h
  rw [functions_trait isOpen]
  intro f mem
  obtain ⟨mem, function⟩ := List.mem_filter.mp mem
  exact methods f mem function

/-- The parts of a trait that play a role stand in front of its braces. -/
theorem child?_trait (k : Kind) :
    (Phrase.node .traitItem (front ++ [.group .brace items o c])).child? k =
      front.find? (Phrase.is k) := by
  rw [Phrase.child?, Phrase.parts, List.find?_append, List.find?_singleton]
  exact Option.or_none

end

end Grammar
end FormulaBinding
