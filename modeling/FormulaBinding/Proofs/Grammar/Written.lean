import FormulaBinding.Grammar.Entry
import Mathlib.Data.List.TakeDrop

/-!
# Phrases that are written part by part

New parentheses stand around operands only. A phrase that is no expression is written part by part,
its attributes first, and what it consists of can be told from what it is written as.
-/

namespace FormulaBinding.Grammar
open Phrase (is)

/-- The roles of phrases that are not written part by part. -/
def operandKinds : List Kind :=
  [.assignExpr, .binaryExpr, .comparisonExpr, .compoundAssignExpr, .castExpr, .rangeExpr,
    .addressExpr, .referenceExpr, .unaryExpr, .letExpr, .awaitExpr, .fieldExpr, .methodExpr,
    .tryExpr, .callExpr, .indexExpr, .breakExpr, .returnExpr, .yieldExpr, .closureExpr, .ifExpr,
    .whileExpr, .forExpr, .matchExpr, .arm, .expressionStatement]

variable {k l : Kind} {n : Nat} {p : Phrase} {parts : List Phrase}

theorem encloses_alone (p : Phrase) : ({} : Surroundings).encloses p = false := by
  simp [Surroundings.encloses]

theorem operandRules_of_notMem (write : Surroundings → Phrase → Phrase) (depth : Nat)
    (s : Surroundings) (h : k ∉ operandKinds) :
    operandRules write depth s (.node k parts) = (write {}, write {}) := by
  cases k <;> first | rfl | exact absurd (by decide) h

theorem writeOperands_of_notMem (write : Surroundings → Phrase → Phrase) (depth : Nat)
    (s : Surroundings) (own : List Phrase) (h : k ∉ operandKinds) :
    writeOperands write depth s (.node k parts) k own = own.map (write {}) := by
  rw [writeOperands, operandRules_of_notMem write depth s h, splitOperands,
    List.span_eq_takeWhile_dropWhile]
  dsimp only
  rw [← List.map_append, List.takeWhile_append_dropWhile]

theorem notMem_splittableKinds (h : k ∉ operandKinds) : k ∉ splittableKinds := by
  cases k <;> first | decide | exact absurd (by decide) h

def attributesFirst (parts : List Phrase) : List Phrase :=
  parts.filter (is .outerAttribute) ++ parts.filter (!is .outerAttribute ·)

theorem writeTo_token (t : Token) : writeTo n {} (.token t) = .token t := by
  cases n with
  | zero => rfl
  | succ n => rw [writeTo, writeIn, encloses_alone, if_neg Bool.false_ne_true, writeInside]

theorem map_writeTo_zero (ps : List Phrase) : ps.map (writeTo 0 {}) = ps := List.map_id ps

theorem writeTo_group (d : Delimiter) (ps : List Phrase) (o c : Extent) :
    writeTo n {} (.group d ps o c) = .group d (ps.map (writeTo (n - 1) {})) o c := by
  cases n with
  | zero => rw [map_writeTo_zero]; rfl
  | succ n => rw [writeTo, writeIn, encloses_alone, if_neg Bool.false_ne_true, writeInside]; rfl

theorem writeTo_succ_node (h : k ∉ operandKinds) : writeTo (n + 1) {} (.node k parts) =
    .node k ((attributesFirst parts).map (writeTo n {})) := by
  have whole : splittableKinds.contains k = false := by
    simpa using notMem_splittableKinds h
  rw [writeTo, writeIn, encloses_alone, if_neg Bool.false_ne_true, writeInside]
  simp only [whole, Bool.false_and, Bool.false_eq_true, if_false, writeOperands_of_notMem _ _ _ _ h,
    attributesFirst, List.map_append]

theorem is_writeTo (p : Phrase) (h : k ∉ operandKinds) (h' : k ≠ .parenExpr) :
    (writeTo n {} p).is k = p.is k := by
  cases n with
  | zero => rfl
  | succ n =>
    cases p with
    | token t => rw [writeTo_token]
    | group d parts o c => rw [writeTo_group]; rfl
    | node l parts =>
      by_cases plain : l ∈ operandKinds
      · have other : (l == k) = false := by
          rw [beq_eq_false_iff_ne]
          rintro rfl
          exact h plain
        have own : (Phrase.node l parts).is k = false := by simpa [is, Phrase.kind?] using other
        have paren : (Kind.parenExpr == k) = false := beq_eq_false_iff_ne.mpr h'.symm
        rw [own, writeTo, writeIn, encloses_alone, if_neg Bool.false_ne_true, writeInside]
        split
        · simpa [is, Phrase.kind?] using paren
        · simpa [is, Phrase.kind?] using other
      · rw [writeTo_succ_node plain]
        rfl

/-- What stands among the parts can be told from how they are written. -/
theorem filter_map_writeTo (h : k ∉ operandKinds) (h' : k ≠ .parenExpr) (ps : List Phrase) :
    (ps.map (writeTo n {})).filter (is k) = (ps.filter (is k)).map (writeTo n {}) := by
  rw [List.filter_map]
  congr 2
  funext p
  exact is_writeTo p h h'

theorem filter_attributesFirst (h : k ≠ .outerAttribute) (parts : List Phrase) :
    (attributesFirst parts).filter (is k) = parts.filter (is k) := by
  have none : (parts.filter (is .outerAttribute)).filter (is k) = [] := by
    rw [List.filter_filter, List.filter_eq_nil_iff]
    intro p _
    rw [Bool.and_eq_true]
    rintro ⟨first, second⟩
    rw [is, beq_iff_eq] at first second
    exact h (Option.some.inj (first.symm.trans second))
  have all : (parts.filter (!is .outerAttribute ·)).filter (is k) = parts.filter (is k) := by
    rw [List.filter_filter]
    refine List.filter_congr fun p _ => ?_
    cases of_k : is k p with
    | false => rfl
    | true =>
      rw [is, beq_iff_eq] at of_k
      have other : is .outerAttribute p = false := by
        rw [is, of_k]
        simpa using h
      rw [other]
      rfl
  rw [attributesFirst, List.filter_append, none, all, List.nil_append]

/-- The parts of a phrase without its attributes are written one by one. -/
theorem filter_own_parts_writeTo (h : l ∉ operandKinds) (parts : List Phrase) :
    (writeTo n {} (.node l parts)).parts.filter (!is .outerAttribute ·) =
      (parts.filter (!is .outerAttribute ·)).map (writeTo (n - 1) {}) := by
  cases n with
  | zero => rw [map_writeTo_zero]; rfl
  | succ n =>
    rw [writeTo_succ_node h, Phrase.parts, List.filter_map]
    have same : (!is .outerAttribute ·) ∘ writeTo n {} = (!is .outerAttribute ·) := by
      funext p
      exact congrArg _ (is_writeTo p (by decide) (by decide))
    rw [same, attributesFirst, List.filter_append]
    congr 1
    simp [List.filter_filter]

theorem children_writeTo (h : l ∉ operandKinds) (hk : k ∉ operandKinds) (hk' : k ≠ .parenExpr)
    (own : k ≠ .outerAttribute) :
    (writeTo n {} (.node l parts)).children k =
      (parts.filter (is k)).map (writeTo (n - 1) {}) := by
  cases n with
  | zero => rw [map_writeTo_zero]; rfl
  | succ n =>
    rw [writeTo_succ_node h, Phrase.children, Phrase.parts, filter_map_writeTo hk hk',
      filter_attributesFirst own]
    rfl

theorem child?_writeTo (h : l ∉ operandKinds) (hk : k ∉ operandKinds) (hk' : k ≠ .parenExpr)
    (own : k ≠ .outerAttribute) :
    (writeTo n {} (.node l parts)).child? k =
      ((Phrase.node l parts).child? k).map (writeTo (n - 1) {}) := by
  have children : (writeTo n {} (.node l parts)).children k =
      (parts.filter (is k)).map (writeTo (n - 1) {}) := children_writeTo h hk hk' own
  rw [Phrase.child?, ← List.head?_filter, ← Phrase.children, children, List.head?_map,
    List.head?_filter]
  rfl

theorem mem_attributesFirst {q : Phrase} : q ∈ attributesFirst parts ↔ q ∈ parts := by
  rw [attributesFirst, List.mem_append, List.mem_filter, List.mem_filter]
  cases q.is .outerAttribute <;> simp

theorem mem_parts_writeTo (h : l ∉ operandKinds) {q : Phrase} :
    q ∈ (writeTo n {} (.node l parts)).parts ↔ ∃ p ∈ parts, writeTo (n - 1) {} p = q := by
  cases n with
  | zero =>
    constructor
    · exact fun mem => ⟨q, mem, rfl⟩
    · rintro ⟨_, mem, rfl⟩
      exact mem
  | succ n =>
    rw [writeTo_succ_node h, Phrase.parts, List.mem_map]
    simp only [mem_attributesFirst, Nat.add_sub_cancel]

theorem writeTo_eq_group {d : Delimiter} {ps : List Phrase} {o c : Extent}
    (h : writeTo n {} p = .group d ps o c) :
    ∃ qs, p = .group d qs o c ∧ ps = qs.map (writeTo (n - 1) {}) := by
  cases p with
  | token t =>
    rw [writeTo_token] at h
    cases h
  | group e qs o' c' =>
    rw [writeTo_group] at h
    cases h
    exact ⟨qs, rfl, rfl⟩
  | node k parts =>
    cases n with
    | zero => cases h
    | succ n =>
      rw [writeTo, writeIn, encloses_alone, if_neg Bool.false_ne_true, writeInside] at h
      split at h <;> cases h

/-- What stands in a group of a written phrase stood in such a group before. -/
theorem exists_group_of_mem_writeTo (h : l ∉ operandKinds) {d : Delimiter} {ps : List Phrase}
    {o c : Extent} (mem : .group d ps o c ∈ (writeTo n {} (.node l parts)).parts) :
    ∃ m qs, .group d qs o c ∈ parts ∧ ps = qs.map (writeTo m {}) := by
  obtain ⟨p, inside, same⟩ := (mem_parts_writeTo h).mp mem
  obtain ⟨qs, rfl, rfl⟩ := writeTo_eq_group same
  exact ⟨_, qs, inside, rfl⟩

theorem mem_of_groupParts? {d : Delimiter} {ps : List Phrase} (h : p.groupParts? d = some ps) :
    ∃ o c, .group d ps o c ∈ p.parts := by
  obtain ⟨q, mem, h⟩ := List.exists_of_findSome?_eq_some h
  split at h
  · split_ifs at h with same
    cases h
    exact ⟨_, _, same ▸ mem⟩
  · cases h

theorem attributesFirst_of_forall (h : ∀ q ∈ parts, q.is .outerAttribute = false) :
    attributesFirst parts = parts := by
  have none : parts.filter (is .outerAttribute) = [] := by
    rw [List.filter_eq_nil_iff]
    exact fun q mem => by rw [h q mem]; exact Bool.false_ne_true
  have all : parts.filter (!is .outerAttribute ·) = parts := by
    rw [List.filter_eq_self]
    exact fun q mem => by rw [h q mem]; rfl
  rw [attributesFirst, none, all, List.nil_append]

/-- A phrase is written as it is if its parts are, and none is an attribute. -/
theorem writeTo_of_forall (h : k ∉ operandKinds) (own : ∀ q ∈ parts, q.is .outerAttribute = false)
    (same : ∀ q ∈ parts, ∀ m, writeTo m {} q = q) : writeTo n {} (.node k parts) = .node k parts := by
  have each (m : Nat) : parts.map (writeTo m {}) = parts :=
    (List.map_congr_left fun q mem => same q mem m).trans (List.map_id parts)
  cases n with
  | zero => rfl
  | succ n => rw [writeTo_succ_node h, attributesFirst_of_forall own, each]

theorem writeTo_of_tokens (h : k ∉ operandKinds) (tokens : ∀ q ∈ parts, ∃ t, q = .token t) :
    writeTo n {} (.node k parts) = .node k parts := by
  refine writeTo_of_forall h (fun q mem => ?_) fun q mem m => ?_
  all_goals obtain ⟨t, rfl⟩ := tokens q mem
  · rfl
  · exact writeTo_token t

end FormulaBinding.Grammar
