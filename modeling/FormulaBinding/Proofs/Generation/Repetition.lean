import FormulaBinding.Proofs.Generation.Emittable
import FormulaBinding.Proofs.Unit.Failure

/-!
# Functions repeat signatures

The function that is written for a method of a text is read with the signature of the method: names
are written so that they are stored as they were, and plain types so that their texts are the same.
-/

namespace FormulaBinding
open Grammar FormulaBinding.Parser

theorem Identifier.stored_of_written {name w : String} (h : IsStored name ∨ name = "self")
    (same : written name = .ok w) : stored w = name := by
  have other : name ≠ "self" := (isOk_written_iff h).mp (isOk_iff.mpr ⟨w, same⟩)
  obtain ⟨v, isName, rfl⟩ := h.resolve_right other
  obtain ⟨v', whole, -, again⟩ := exists_written_stored isName
  cases same.symm.trans whole
  exact again

theorem Identifier.Spells.map_stored {words names : List String}
    (h : ∀ name ∈ names, IsStored name ∨ name = "self") (spells : Spells words names) :
    words.map stored = names := by
  induction names generalizing words with
  | nil =>
    rw [Spells, List.map_nil] at spells
    rw [List.map_eq_nil_iff.mp spells.symm]
    rfl
  | cons name names ih =>
    cases words with
    | nil => cases spells
    | cons w words =>
      rw [Spells, List.map_cons, List.map_cons] at spells
      obtain ⟨first, others⟩ := List.cons.inj spells
      rw [List.map_cons, stored_of_written (h name List.mem_cons_self) first,
        ih (fun v mem => h v (List.mem_cons_of_mem name mem)) others]

/-- What is read of a parameter with a plain type, as it is written, has the text of the type. -/
theorem Parameter.IsPlain.type_eq {x y : Parameter} {p : String × List Token} {q : Phrase} {m : Nat}
    (plain : x.IsPlain) (written : x.IsWrittenWith p) (input : IsInputAs p q)
    (read : Source.parameter? (writeTo m {} q) = some y) : y.type = x.type := by
  obtain ⟨S, isPlain, text⟩ := plain
  obtain ⟨type, read', tokens⟩ := written.type
  obtain ⟨t, isType, rfl⟩ := input
  obtain ⟨_, again, spells⟩ := isPlain.readType_eq
  rw [text, again] at read'
  cases read'
  obtain ⟨_, kept, alone⟩ := isPlain.readTokens_type (tokens ▸ spells)
  cases isType.symm.trans alone
  have parts : ∀ q ∈ [wordPattern p.1 Extent.nowhere, .token (.mark ':' false Extent.nowhere), t],
      q.is .outerAttribute = false ∧ ∀ m, writeTo m {} q = q := by
    simp only [List.forall_mem_cons]
    exact ⟨⟨rfl, fun m => writeTo_wordPattern _ _⟩, ⟨rfl, fun m => writeTo_token _⟩,
      ⟨kept.own t List.mem_cons_self, kept.written t List.mem_cons_self⟩, List.forall_mem_nil _⟩
  rw [writeTo_of_forall (by decide) (fun q mem => (parts q mem).1) fun q mem => (parts q mem).2]
    at read
  have free := Identifier.notMem_reservedWords_of_written written.name
  have own := List.filter_eq_self.mpr fun q mem =>
    congrArg Bool.not ((parts q mem).1 : Phrase.is .outerAttribute q = false)
  cases read.symm.trans (parameter?_eq own free)
  exact (kept.spells.textList_eq kept.spelled).trans text.symm

theorem Parameter.types_of_forall₂ {xs : List Parameter} {ps : List (String × List Token)}
    {qs : List Phrase} (written : List.Forall₂ IsWrittenWith xs ps)
    (inputs : List.Forall₂ IsInputAs ps qs) (m : Nat) :
    List.Forall₂ (fun x y => x.IsPlain → y.type = x.type) xs
      ((qs.map (writeTo m {})).filterMap Source.parameter?) := by
  induction written generalizing qs with
  | nil =>
    cases inputs
    exact .nil
  | cons first _ ih =>
    cases inputs with
    | cons input inputs =>
      have free := Identifier.notMem_reservedWords_of_written first.name
      obtain ⟨y, read, -⟩ := (input.isInputOf.writeTo m).exists_parameter? free
      rw [List.map_cons, List.filterMap_cons_some read]
      exact .cons (fun plain => plain.type_eq first input read) (ih inputs)

theorem Member.IsFunction.isWrittenAs {m : Member} {f : Phrase} (h : m.IsFunction f) :
    m.IsWrittenAs f := by
  obtain ⟨w, content, statements, ps, qs, name, same, roles, written, inputs⟩ := h
  refine ⟨w, _, name, Parameter.spells written, content, statements, qs, same, roles, ?_⟩
  exact List.forall₂_map_left_iff.mpr (inputs.imp fun p q input => input.isInputOf)

theorem Member.IsFunction.types {m : Member} {f : Phrase} (h : m.IsFunction f) (n : Nat)
    (imports : Imports) (scope container : String) (modifiers : Modifiers) (plain : Bool) :
    List.Forall₂ (fun x y => x.IsPlain → y.type = x.type) m.parameters
      (Source.declaration imports scope container modifiers plain (writeTo n {} f)).parameters := by
  obtain ⟨w, content, statements, ps, qs, name, rfl, roles, written, inputs⟩ := h
  obtain ⟨k, k', same⟩ := exists_writeTo_functionPhrase n w content statements
  have roles' : Phrase.rolesOf (content.map (writeTo k {})) =
      (m.receiver.map receiverPhrase).toList ++ qs.map (writeTo k {}) := by
    rw [rolesOf_map_writeTo, roles, List.map_append]
    cases m.receiver with
    | none => rfl
    | some r => exact congrArg (· :: _) (writeTo_receiverPhrase r)
  rw [same, parameters_functionPhrase roles']
  · exact Parameter.types_of_forall₂ written inputs k
  · intro q mem
    obtain ⟨q, inside, rfl⟩ := List.mem_map.mp mem
    obtain ⟨p, -, input⟩ := exists_of_mem_forall₂ inputs inside
    exact (input.isInputOf.writeTo k).is_parameter .parameter

/-- Whether a declaration has the signature of another one; the types of parameters as far as they
are plain. -/
structure Declaration.Repeats (d d' : Declaration) : Prop where
  name : d'.name = d.name
  receiver : d'.receiver = d.receiver
  parameters : d'.parameters.map Parameter.name = d.parameters.map Parameter.name
  types : List.Forall₂ (fun x y => x.IsPlain → y.type = x.type) d.parameters d'.parameters
  returnType : d'.returnType = d.returnType
  fixedShape : d'.fixedShape = d.fixedShape

theorem Declaration.Repeats.parameters_eq {d d' : Declaration} (h : d.Repeats d')
    (plain : ∀ x ∈ d.parameters, x.IsPlain) : d'.parameters = d.parameters := by
  obtain ⟨-, -, names, types, -, -⟩ := h
  generalize d.parameters = xs at names types plain
  generalize d'.parameters = ys at names types
  induction types with
  | nil => rfl
  | @cons x y xs ys type _ ih =>
    obtain ⟨first, others⟩ := List.forall_mem_cons.mp plain
    obtain ⟨name, names⟩ := List.cons.inj names
    rw [ih others names, show y = x from congr (congrArg Parameter.mk name) (type first)]

namespace Generator

end Generator

end FormulaBinding
