import FormulaBinding.Proofs.Grammar.Calm
import FormulaBinding.Proofs.Grammar.Rows
import FormulaBinding.Proofs.Grammar.Written

/-!
# What the rules of types make

The phrases that the rules of types make close every angle bracket that they open, and have neither
a comma nor a dot outside of brackets. This stays so where a phrase is written with the parentheses
that its operands need.
-/

namespace FormulaBinding

open Token (AreCalm Leads)
open Grammar (operandKinds attributesFirst writeTo)

def Grammar.angleKinds : List Kind := [.genericArguments, .qualifiedPath, .forLifetimes, .capture]

/-- The roles of phrases whose tokens are kept as they were read. -/
def Grammar.writtenKinds : List Kind := [.verbatimBound, .verbatimType]

open Grammar (angleKinds writtenKinds)

/-- A phrase that closes the angle brackets that it opens, and ends no list. -/
inductive Phrase.IsSettled : Phrase → Prop
  | token {t : Token} (quiet : t.isQuiet = true) : IsSettled (token t)
  | group (d : Delimiter) (ps : List Phrase) (o c : Extent) : IsSettled (group d ps o c)
  | node {k : Kind} {parts : List Phrase} (plain : k ∉ operandKinds)
      (all : ∀ q ∈ parts, IsSettled q) : IsSettled (node k parts)
  | kept {k : Kind} {ts : List Token} (role : k ∈ writtenKinds) (calm : AreCalm ts) :
      IsSettled (node k (ts.map Phrase.token))
  | angles {k : Kind} {front inside behind : List Phrase} {j j' : Bool} {e e' : Extent}
      (role : k ∈ angleKinds) (before : ∀ q ∈ front, IsSettled q)
      (within : ∀ q ∈ inside, q.isMark ',' = false → IsSettled q)
      (after : ∀ q ∈ behind, IsSettled q) :
      IsSettled (node k (front ++ Phrase.token (.mark '<' j e) ::
        (inside ++ Phrase.token (.mark '>' j' e') :: behind)))
  | arrow {front behind : List Phrase} {j : Bool} {e e' : Extent}
      (before : ∀ q ∈ front, IsSettled q) (after : ∀ q ∈ behind, IsSettled q) :
      IsSettled (node .returnType (front ++ Phrase.token (.mark '-' true e) ::
        Phrase.token (.mark '>' j e') :: behind))

namespace Phrase

/-- Phrases without brackets and arrows of their own have settled parts. -/
theorem IsSettled.parts {k : Kind} {ps : List Phrase} (h : IsSettled (.node k ps))
    (role : k ∉ .returnType :: (angleKinds ++ writtenKinds)) : ∀ q ∈ ps, IsSettled q := by
  rw [List.mem_cons, List.mem_append, not_or, not_or] at role
  obtain ⟨noArrow, noAngles, noKept⟩ := role
  cases h with
  | node _ all => exact all
  | kept kept => exact absurd kept noKept
  | angles angles => exact absurd angles noAngles
  | arrow => exact absurd rfl noArrow

theorem leads_tokensList {i : ℕ} {ps : List Phrase} (h : ∀ q ∈ ps, Leads i i q.tokens) :
    Leads i i (tokensList ps) := by
  induction ps with
  | nil => exact .nil
  | cons q qs ih =>
    have first := h q List.mem_cons_self
    exact first.append (ih fun r hr => h r (List.mem_cons_of_mem q hr))

theorem tokensList_map_token (ts : List Token) : tokensList (ts.map token) = ts := by
  induction ts with
  | nil => rfl
  | cons t ts ih => rw [List.map_cons, tokensList, tokens, ih, List.singleton_append]

theorem eq_of_isMark {c : Char} {p : Phrase} (h : p.isMark c) : ∃ j e, p = token (.mark c j e) := by
  cases p with
  | token t =>
    cases t with
    | mark d j e => exact ⟨j, e, by rw [eq_of_beq h]⟩
    | _ => cases h
  | _ => cases h

theorem IsSettled.areCalm {p : Phrase} (h : p.IsSettled) : AreCalm p.tokens := by
  induction h with
  | token quiet => exact Token.leads_of_isQuiet quiet
  | group => exact Token.leads_of_isQuiet rfl
  | node _ _ ih => exact leads_tokensList ih
  | kept _ calm => rw [tokens, tokensList_map_token]; exact calm
  | @angles k front inside behind j j' e e' _ _ _ _ first middle last =>
    have within : Leads 1 1 (tokensList inside) := by
      apply leads_tokensList
      intro q hq
      by_cases comma : q.isMark ','
      · obtain ⟨joined, place, rfl⟩ := eq_of_isMark comma
        exact Leads.comma joined
      · exact (middle q hq (by simpa using comma)).raise 1
    rw [tokens, tokensList_append, tokensList, tokensList_append, tokensList]
    exact (leads_tokensList first).append ((Leads.opens j).append
      (within.append ((Leads.closes j').append (leads_tokensList last))))
  | @arrow front behind j e e' _ _ first last =>
    rw [tokens, tokensList_append, tokensList, tokensList]
    exact (leads_tokensList first).append ((Leads.arrow j).append (leads_tokensList last))

theorem notMem_operandKinds_of_angleKinds {k : Kind} (h : k ∈ angleKinds) : k ∉ operandKinds := by
  revert k
  decide

theorem notMem_operandKinds_of_writtenKinds {k : Kind} (h : k ∈ writtenKinds) :
    k ∉ operandKinds := by
  revert k
  decide

theorem not_isMark_of_outerAttribute {p : Phrase} (h : p.is .outerAttribute = true) (c : Char) :
    p.isMark c = false := by
  cases p with
  | token t => cases h
  | _ => rfl

theorem not_isMark_writeTo {c : Char} {n : ℕ} {p : Phrase}
    (h : (Grammar.writeTo n {} p).isMark c = false) : p.isMark c = false := by
  cases mark : p.isMark c with
  | false => rfl
  | true =>
    obtain ⟨j, e, rfl⟩ := eq_of_isMark mark
    rw [Grammar.writeTo_token, mark] at h
    cases h

theorem filter_own_append_token (front behind : List Phrase) (t : Token) :
    (front ++ token t :: behind).filter (!is .outerAttribute ·) =
      front.filter (!is .outerAttribute ·) ++
        token t :: behind.filter (!is .outerAttribute ·) := by
  rw [List.filter_append, List.filter_cons_of_pos (by rfl)]

theorem map_writeTo_append_token (n : ℕ) (front behind : List Phrase) (t : Token) :
    (front ++ token t :: behind).map (Grammar.writeTo n {}) =
      front.map (Grammar.writeTo n {}) ++ token t :: behind.map (Grammar.writeTo n {}) := by
  rw [List.map_append, List.map_cons, Grammar.writeTo_token]

/-- The attributes in a settled phrase are settled: neither a comma nor a bracket is one. -/
theorem IsSettled.of_mem_attributes {k : Kind} {ps : List Phrase} (h : IsSettled (.node k ps)) :
    ∀ q ∈ ps.filter (is .outerAttribute), q.IsSettled := by
  intro q hq
  obtain ⟨mem, isAttribute⟩ := List.mem_filter.mp hq
  cases h with
  | node _ all => exact all q mem
  | kept =>
    obtain ⟨t, -, rfl⟩ := List.mem_map.mp mem
    cases isAttribute
  | angles _ before within after =>
    simp only [List.mem_append, List.mem_cons] at mem
    rcases mem with mem | rfl | mem | rfl | mem
    · exact before q mem
    · cases isAttribute
    · exact within q mem (not_isMark_of_outerAttribute isAttribute _)
    · cases isAttribute
    · exact after q mem
  | arrow before after =>
    simp only [List.mem_append, List.mem_cons] at mem
    rcases mem with mem | rfl | rfl | mem
    · exact before q mem
    · cases isAttribute
    · cases isAttribute
    · exact after q mem

theorem IsSettled.writeTo {p : Phrase} (h : p.IsSettled) (n : ℕ) : (writeTo n {} p).IsSettled := by
  induction n generalizing p with
  | zero => exact h
  | succ n ih =>
    have written {ps : List Phrase} (all : ∀ q ∈ ps, IsSettled q) :
        ∀ q ∈ ps.map (Grammar.writeTo n {}), IsSettled q := by
      intro q hq
      obtain ⟨r, hr, rfl⟩ := List.mem_map.mp hq
      exact ih (all r hr)
    have own {ps : List Phrase} (all : ∀ q ∈ ps, IsSettled q) :
        ∀ q ∈ ps.filter (!is .outerAttribute ·), IsSettled q := fun q hq =>
      all q (List.mem_filter.mp hq).1
    cases h with
    | token quiet =>
      rw [Grammar.writeTo_token]
      exact .token quiet
    | group =>
      rw [Grammar.writeTo_group]
      exact .group _ _ _ _
    | node plain all =>
      rw [Grammar.writeTo_succ_node plain]
      exact .node plain (written fun q hq => all q (Grammar.mem_attributesFirst.mp hq))
    | kept role calm =>
      have plain := notMem_operandKinds_of_writtenKinds role
      rw [Grammar.writeTo_of_tokens plain (by simp)]
      exact .kept role calm
    | @angles k front inside behind j j' e e' role before within after =>
      -- Attributes stand in front afterwards, and what they stand in front of keeps its brackets.
      have plain := notMem_operandKinds_of_angleKinds role
      have first := (@IsSettled.angles _ _ _ _ j j' e e' role before within
        after).of_mem_attributes
      rw [Grammar.writeTo_succ_node plain, attributesFirst, filter_own_append_token,
        filter_own_append_token, ← List.append_assoc, map_writeTo_append_token,
        map_writeTo_append_token]
      refine .angles role (written fun q hq => ?_) (fun q hq noComma => ?_) (written (own after))
      · exact (List.mem_append.mp hq).elim (first q) (own before q)
      · obtain ⟨r, hr, rfl⟩ := List.mem_map.mp hq
        exact ih (within r (List.mem_filter.mp hr).1 (not_isMark_writeTo noComma))
    | @arrow front behind j e e' before after =>
      have plain : Kind.returnType ∉ operandKinds := by decide
      have first := (@IsSettled.arrow _ _ j e e' before after).of_mem_attributes
      rw [Grammar.writeTo_succ_node plain, attributesFirst, filter_own_append_token,
        List.filter_cons_of_pos (by rfl), ← List.append_assoc, map_writeTo_append_token,
        List.map_cons, Grammar.writeTo_token]
      refine .arrow (written fun q hq => ?_) (written (own after))
      exact (List.mem_append.mp hq).elim (first q) (own before q)

theorem IsSettled.written {p : Phrase} (h : p.IsSettled) : (Grammar.written p).IsSettled :=
  h.writeTo _

end Phrase
end FormulaBinding
