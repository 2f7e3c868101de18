import FormulaBinding.Proofs.Declaration.Traits
import FormulaBinding.Proofs.Text.Plain
import FormulaBinding.Proofs.Unit.Naming

/-!
# How names are spelled

The identifiers that name a method and its parameters are stored without the mark of a raw
identifier, and what is stored is written with the mark exactly where the grammar reserves it. The
grammar reserves the keywords, except for `gen`: a method `r#gen` is written as `gen`. What is
stored as `self` cannot be written.
-/

namespace FormulaBinding

namespace Identifier
open Grammar

def IsRaw (w : String) : Prop := ['r', '#'] <+: w.toList

/-- How an identifier comes back once it was stored: as one that is stored in the same way, raw for
each keyword but `gen`. -/
structure ComesBack (w v : String) : Prop where
  rendered : written (stored w) = .ok v
  again : stored v = stored w
  raw_iff : IsRaw v ↔ stored w ∈ keywords ∧ stored w ≠ "gen"

variable {w : String}

theorem isPlainWord_stored (name : Text.IsName w) : Text.IsPlainWord (stored w).toList := by
  rcases name.1 with plain | ⟨v, raw, plain, -⟩
  · rwa [stored_of_isPlainWord plain]
  · rwa [stored_of_raw raw, String.toList_ofList]

/-- The lone underscore is no name, and cannot be raw. -/
theorem stored_ne_underscore (name : Text.IsName w) : stored w ≠ "_" := by
  rcases name.1 with plain | ⟨v, raw, -, free⟩
  · rw [stored_of_isPlainWord plain]
    rintro rfl
    exact name.2 (by decide)
  · rw [stored_of_raw raw]
    intro same
    exact free (same ▸ by decide)

/-- Only the lone underscore and `gen` tell the two tables of words apart. -/
theorem mem_reservedWords_iff (other : w ≠ "_") :
    w ∈ reservedWords ↔ w ∈ keywords ∧ w ≠ "gen" := by
  have reserved : ∀ w ∈ keywords, w = "gen" ∨ w ∈ reservedWords := by decide
  constructor
  · intro h
    refine ⟨mem_keywords_of_mem_reservedWords h other, ?_⟩
    rintro rfl
    exact absurd h (by decide)
  · rintro ⟨keyword, free⟩
    exact (reserved w keyword).resolve_left free

theorem exists_comesBack (name : Text.IsName w) : ∃ v, ComesBack w v := by
  obtain ⟨v, rendered, isName, again⟩ := exists_written_stored name
  refine ⟨v, rendered, again, ?_⟩
  rw [← mem_reservedWords_iff (stored_ne_underscore name)]
  constructor
  · -- What is no reserved word is written as it is stored, and that is not raw.
    intro raw
    by_contra free
    have plain := isPlainWord_stored name
    have bare := written_of_isName ⟨.inl plain, free⟩
    cases bare.symm.trans rendered
    exact not_isPrefix_of_isPlainWord plain raw
  · -- What is written is a name, so a reserved word is written as a raw one.
    intro reserved
    rcases isName.1 with plain | ⟨u, raw, -⟩
    · rw [← again, stored_of_isPlainWord plain] at reserved
      exact absurd reserved isName.2
    · exact ⟨u, raw.symm⟩

/-- An identifier that may name a parameter comes back unless it is `self`. -/
theorem exists_comesBack_iff (h : IsBound w) : (∃ v, ComesBack w v) ↔ w ≠ "self" := by
  constructor
  · rintro ⟨v, back⟩ rfl
    have ok := (isOk_written_iff (.inr Source.stored_self)).mp (isOk_iff.mpr ⟨v, back.rendered⟩)
    exact ok Source.stored_self
  · exact fun other => exists_comesBack (h.resolve_right other)

end Identifier

namespace Source
open Grammar

/-- The methods that are read: those of the traits of a source text, and those of a trait that is
read by itself. -/
inductive IsReadMethod (f : Phrase) : Prop
  | inText {text root scope : String} {items inner : List Phrase} {trait : Phrase}
      (read : readFile text = .ok items) (method : IsMethod root items scope inner trait f)
  | alone {text : String} {ts : List Token} {trait : Phrase} (lexed : tokensOf text = .ok ts)
      (read : readTrait ts = .ok trait) (mem : f ∈ functions trait)

variable {f : Phrase}

theorem IsReadMethod.exists_function (h : IsReadMethod f) :
    ∃ n p, IsFunction p ∧ f = writeTo n {} p := by
  cases h with
  | inText read method => exact (method.isWritten read).2.2
  | alone lexed read mem =>
    obtain ⟨n, q, isRead, rfl⟩ := exists_isReadTrait (areProper_of_tokensOf lexed) read
    exact isRead.exists_function mem

/-- The identifiers of a method that is read are stored, and what is stored of each is written as an
identifier that is stored in the same way; only a parameter named `self` is not. -/
theorem names_comeBack (h : IsReadMethod f) (imports : Imports) (scope container : String)
    (modifiers : Modifiers) (plain : Bool) :
    let d := declaration imports scope container modifiers plain f
    d.name = Identifier.stored (functionWord f) ∧
      d.parameters.map Parameter.name = (parameterWords f).map Identifier.stored ∧
      functionWord f ≠ "self" ∧
      ∀ w ∈ functionWord f :: parameterWords f,
        (∃ v, Identifier.ComesBack w v) ↔ w ≠ "self" := by
  obtain ⟨n, p, isFunction, rfl⟩ := h.exists_function
  obtain ⟨isName, bound⟩ := words_writeTo (n := n) isFunction
  obtain ⟨name, parameters⟩ := names_declaration imports scope container modifiers plain _
  refine ⟨name, parameters, ?_, fun w mem => Identifier.exists_comesBack_iff ?_⟩
  · intro same
    exact isName.2 (same ▸ by decide)
  · rcases List.mem_cons.mp mem with rfl | mem
    · exact .inl isName
    · exact bound w mem

/-- A method whose identifiers are raw, and which has a parameter named `self`. -/
def rawMethod : String :=
  "pub trait T \x7b fn r#gen(r#match: f64, r#a: f64, mut self:::X) -> f64; \x7d"

theorem names_comeBack_of_rawMethod : ∃ f, IsReadMethod f ∧
    (let d := declaration {} "crate" "T" ⟨.everyone, true, false⟩ true f
    d.name = "gen" ∧ d.parameters.map Parameter.name = ["match", "a", "self"]) ∧
    (∀ w ∈ ["r#gen", "r#match", "r#a"], ∃ v, Identifier.ComesBack w v) ∧
    ¬ ∃ v, Identifier.ComesBack "self" v := by
  have words : (readFile rawMethod).toOption.map (fun items =>
      (items.find? (Phrase.is .traitItem)).map fun trait => (functions trait).map fun f =>
        (functionWord f, parameterWords f)) =
      some (some [("r#gen", ["r#match", "r#a", "self"])]) := by decide +kernel
  cases read : readFile rawMethod with
  | error e =>
    rw [read] at words
    cases words
  | ok items =>
    rw [read] at words
    obtain ⟨trait, found, methods⟩ := Option.map_eq_some_iff.mp (Option.some.inj words)
    obtain ⟨f, only, words⟩ := List.map_eq_singleton_iff.mp methods
    obtain ⟨own, parameters⟩ := Prod.mk.inj words
    have method : IsMethod "crate" items "crate" items trait f :=
      ⟨.root, List.mem_of_find?_eq_some found, List.find?_some found,
        only ▸ List.mem_singleton_self f⟩
    obtain ⟨name, names, -, back⟩ :=
      names_comeBack (.inText read method) {} "crate" "T" ⟨.everyone, true, false⟩ true
    rw [own, parameters] at back
    rw [own] at name
    rw [parameters] at names
    refine ⟨f, .inText read method, ⟨name.trans (by decide), names.trans (by decide)⟩, ?_, ?_⟩
    · intro w mem
      exact (back w (List.mem_append_left ["self"] mem)).mpr (ne_of_mem_of_not_mem mem (by decide))
    · exact fun again => (back "self" (by simp)).mp again rfl

end Source
end FormulaBinding
