import FormulaBinding.Proofs.Grammar.Inputs

/-!
# Reading functions again

The tokens of a generated function, read as a method, are the signature that they were written for.
-/

namespace FormulaBinding.Grammar
open FormulaBinding.Parser FormulaBinding.Token

variable {read : Reader} {c d : Cursor} {w : String} {n : Nat} {us body : List Token}

def signatureTokens (w : String) (inner : List Token) : List Token :=
  ident "fn" ++ ident w ++ inParens inner ++ op "->" ++ ident "f64"

/-- The result of a signature that returns a number. -/
def resultPhrase : Phrase :=
  .node .returnType [.token (.mark '-' true Extent.nowhere), .token (.mark '>' false Extent.nowhere),
    pathType [.name "f64" Extent.nowhere]]

def signaturePhrase (w : String) (content : List Phrase) : Phrase :=
  .node .signature [.token (.name "fn" Extent.nowhere),
    .node .itemName [.token (.name w Extent.nowhere)],
    .group .parenthesis content Extent.nowhere Extent.nowhere, resultPhrase]

theorem returnType_run {e e' e'' o cl : Extent} (rest : c.rest =
      .mark '-' true e :: .mark '>' false e' :: .name "f64" e'' :: .group .brace body o cl :: us) :
    returnType (reader (n + 1)) true c = .ok ((), { c with
      rest := .group .brace body o cl :: us
      row := .node .returnType [.token (.mark '-' true e), .token (.mark '>' false e'),
        pathType [.name "f64" e'']] :: c.row }) := by
  rcases c with ⟨_, inside, leftover, row⟩
  cases rest
  have number : type (reader n) true _ = _ := type_word_run (c := ⟨.name "f64" e'' ::
    .group .brace body o cl :: us, inside, leftover,
      [.token (.mark '>' false e'), .token (.mark '-' true e)]⟩) rfl (by decide)
      (.group _ _ _ _ _) true
  refine run_bind_eq_ok.mpr ⟨_, _, rfl, ?_⟩
  refine node_eq_ok.mpr ⟨⟨.group .brace body o cl :: us, inside, leftover,
    [pathType [.name "f64" e''], .token (.mark '>' false e'), .token (.mark '-' true e)]⟩, ?_, rfl⟩
  exact run_bind_eq_ok.mpr ⟨_, _, rfl, number⟩

/-- A signature is read exactly if its name is no keyword and its parameters are read. -/
theorem signature_eq_ok {inner : List Token}
    (rest : c.rest = signatureTokens w inner ++ inBraces body ++ us) {safe : Bool} :
    signature (reader (n + 1)) false c = .ok (safe, d) ↔ safe = false ∧ w ∉ reservedWords ∧
      ∃ content, parameters (reader (n + 1))
          ⟨inner, some (.parenthesis, Extent.nowhere), c.leftover, []⟩ = .ok ((), content) ∧
        d = { c with
          rest := inBraces body ++ us
          leftover := content.leftover <|> content.leftoverError?
          row := signaturePhrase w content.row.reverse :: c.row } := by
  have rest : c.rest = .name "fn" Extent.nowhere :: .name w Extent.nowhere ::
    .group .parenthesis inner Extent.nowhere Extent.nowhere :: .mark '-' true Extent.nowhere ::
    .mark '>' false Extent.nowhere :: .name "f64" Extent.nowhere ::
    .group .brace body Extent.nowhere Extent.nowhere :: us := rest
  rcases c with ⟨_, inside, leftover, row⟩
  cases rest
  rw [signature, node_eq_ok, run_bind_of_ok (a := ()) rfl, run_bind_of_ok (a := ()) rfl,
    run_bind_of_ok rfl]
  simp only [Bool.false_and, Bool.false_eq_true, if_false]
  rw [run_bind_of_ok (a := ()) rfl, run_bind_of_ok (a := false) rfl, run_bind_of_ok (a := ()) rfl,
    run_bind_of_ok (a := ()) rfl]
  constructor
  · rintro ⟨e, run, rfl⟩
    obtain ⟨_, _, named, run⟩ := run_bind_eq_ok.mp run
    obtain ⟨_, name, rfl⟩ := node_eq_ok.mp named
    obtain ⟨v, x, ts, here, free, rfl⟩ := name_eq_ok.mp name
    cases here
    rw [run_bind_of_ok (a := ()) rfl] at run
    obtain ⟨_, _, inputs, run⟩ := run_bind_eq_ok.mp run
    obtain ⟨_, _, _, _, content, here, reads, rfl⟩ := inGroup_eq_ok.mp inputs
    cases here
    rw [run_bind_of_ok (returnType_run rfl)] at run
    cases run
    exact ⟨rfl, free, content, reads, rfl⟩
  · rintro ⟨rfl, free, content, inputs, rfl⟩
    refine ⟨⟨inBraces body ++ us, inside, content.leftover <|> content.leftoverError?,
      (signaturePhrase w content.row.reverse).parts.reverse⟩, ?_, rfl⟩
    refine run_bind_eq_ok.mpr ⟨_, _, node_eq_ok.mpr ⟨_, name_run rfl free, rfl⟩, ?_⟩
    refine run_bind_eq_ok.mpr ⟨_, _, rfl, ?_⟩
    refine run_bind_eq_ok.mpr ⟨_, _, inGroup_eq_ok.mpr ⟨_, _, _, _, _, rfl, inputs, rfl⟩, ?_⟩
    exact run_bind_eq_ok.mpr ⟨_, _, returnType_run rfl, rfl⟩

end FormulaBinding.Grammar
