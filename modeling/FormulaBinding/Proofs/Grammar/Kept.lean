import FormulaBinding.Proofs.Grammar.Segments
import FormulaBinding.Proofs.Grammar.Written
import FormulaBinding.Proofs.Token.Spelling
import FormulaBinding.Token.Build

/-!
# What is written as it is read

Some tokens are read as phrases that are written as they are, with the same tokens, wherever the
tokens stand. This is shown rule by rule, from what the parts of a rule read.
-/

namespace FormulaBinding.Grammar
open FormulaBinding.Parser FormulaBinding.Token

/-- Whether phrases are written as they are, with the tokens of a list. -/
structure AreKept (qs : List Phrase) (S : List Token) : Prop where
  own : ∀ q ∈ qs, q.is .outerAttribute = false
  written : ∀ q ∈ qs, ∀ m, writeTo m {} q = q
  spells : Respells (Phrase.tokensList qs) S
  spelled : Respells S (Phrase.tokensList qs)

variable {qs rs : List Phrase} {S T : List Token}

namespace AreKept

theorem nil : AreKept [] [] := ⟨List.forall_mem_nil _, List.forall_mem_nil _, .nil, .nil⟩

theorem append (h : AreKept qs S) (h' : AreKept rs T) : AreKept (qs ++ rs) (S ++ T) where
  own q mem := (List.mem_append.mp mem).elim (h.own q) (h'.own q)
  written q mem := (List.mem_append.mp mem).elim (h.written q) (h'.written q)
  spells := by rw [Phrase.tokensList_append]; exact h.spells.append h'.spells
  spelled := by rw [Phrase.tokensList_append]; exact h.spelled.append h'.spelled

theorem token {t s : Token} (h : Respells [t] [s]) (h' : Respells [s] [t]) :
    AreKept [.token t] [s] where
  own q mem := by rw [List.mem_singleton.mp mem]; rfl
  written q mem m := by rw [List.mem_singleton.mp mem]; exact writeTo_token t
  spells := h
  spelled := h'

theorem node {k : Kind} (h : AreKept qs S) (plain : k ∉ operandKinds)
    (other : k ≠ .outerAttribute) : AreKept [.node k qs] S where
  own q mem := by
    rw [List.mem_singleton.mp mem]
    exact beq_eq_false_iff_ne.mpr fun same => other (Option.some.inj same)
  written q mem m := by
    rw [List.mem_singleton.mp mem]
    exact writeTo_of_forall plain h.own h.written
  spells := by simpa [Phrase.tokensList, Phrase.tokens] using h.spells
  spelled := by simpa [Phrase.tokensList, Phrase.tokens] using h.spelled

theorem group (h : AreKept qs S) (d : Delimiter) (o c : Extent) :
    AreKept [.group d qs o c] (grouped d S) where
  own q mem := by rw [List.mem_singleton.mp mem]; rfl
  written q mem m := by
    rw [List.mem_singleton.mp mem, writeTo_group]
    exact congrArg (Phrase.group d · o c)
      ((List.map_congr_left fun p inside => h.written p inside _).trans (List.map_id qs))
  spells := by
    simpa [Phrase.tokensList, Phrase.tokens, grouped] using Respells.group h.spells .nil
  spelled := by
    simpa [Phrase.tokensList, Phrase.tokens, grouped] using Respells.group h.spelled .nil

end AreKept

/-- Whether a rule reads tokens that spell a list, where it may end behind them, as phrases with some
property that are kept, and what it returns then. The rule may apply rules as deep as the
tokens are many, and some more. -/
structure Yields {α : Type} (a : α) (k : Nat) (p : Reader → Parser α) (ends : List Token → Prop)
    (φ : List Phrase → Prop) (S : List Token) : Prop where
  run : ∀ {n : Nat} {ts us : List Token} {c : Cursor}, 8 * sizeList S + k ≤ n → Respells ts S → ends us →
    c.rest = ts ++ us → ∃ qs, φ qs ∧ AreKept qs S ∧
      p (reader n) c = .ok (a, { c with rest := us, row := qs.reverse ++ c.row })

/-- Whether a rule that returns nothing reads tokens as phrases that are kept. -/
abbrev Reads (k : Nat) (p : Reader → Parser Unit) (ends : List Token → Prop)
    (φ : List Phrase → Prop) (S : List Token) : Prop := Yields () k p ends φ S

abbrev Whatever {α : Type} (_ : α) : Prop := True

namespace Yields

variable {k l m : Nat} {p q : Reader → Parser Unit} {e e' : List Token → Prop}
  {φ ψ χ : List Phrase → Prop}

theorem mono (h : Reads k p e φ S) (le : k ≤ l) (weaker : ∀ us, e' us → e us)
    (more : ∀ qs, φ qs → ψ qs) : Reads l p e' ψ S := by
  refine ⟨fun {n ts us c} enough spells ends rest => ?_⟩
  obtain ⟨qs, hold, kept, run⟩ := h.run (n := n) (by omega) spells (weaker us ends) rest
  exact ⟨qs, more qs hold, kept, run⟩

/-- A rule that does the same where the tokens stand reads them, too. -/
theorem congr (h : Reads k q e φ S) (same : ∀ {read : Reader} {c d : Cursor} {ts us : List Token},
    Respells ts S → e us → c.rest = ts ++ us → q read c = .ok ((), d) → p read c = .ok ((), d)) :
    Reads k p e φ S := by
  refine ⟨fun {n ts us c} enough spells ends rest => ?_⟩
  obtain ⟨qs, hold, kept, run⟩ := h.run enough spells ends rest
  exact ⟨qs, hold, kept, same spells ends rest run⟩

theorem bind {α : Type} {a : α} {q : Reader → Parser α} (h : Reads k p e φ S)
    (h' : Yields a l q e' ψ T)
    (leaves : ∀ {ts us}, Respells ts T → e' us → e (ts ++ us))
    (combine : ∀ {qs rs}, φ qs → ψ rs → χ (qs ++ rs)) (first : k ≤ 8 * sizeList T + m)
    (second : l ≤ 8 * sizeList S + m) :
    Yields a m (fun read => p read >>= fun _ => q read) e' χ (S ++ T) := by
  refine ⟨fun {n ts us c} enough spells ends rest => ?_⟩
  rw [sizeList_append] at enough
  obtain ⟨ts, vs, rfl, spells, spells'⟩ := spells.exists_of_append
  rw [List.append_assoc] at rest
  obtain ⟨qs, hold, kept, run⟩ :=
    h.run (n := n) (by omega) spells (leaves spells' ends) rest
  obtain ⟨rs, hold', kept', run'⟩ := h'.run (n := n)
    (c := { c with rest := vs ++ us, row := qs.reverse ++ c.row }) (by omega) spells' ends
    rfl
  refine ⟨qs ++ rs, combine hold hold', kept.append kept', run_bind_eq_ok.mpr ⟨(), _, run, ?_⟩⟩
  rw [run', List.reverse_append, List.append_assoc]

theorem node {r : Kind} (h : Reads k p e φ S) (plain : r ∉ operandKinds)
    (other : r ≠ .outerAttribute) : Reads k (fun read => Parser.node r (p read)) e
      (fun qs => ∃ parts, φ parts ∧ qs = [.node r parts]) S := by
  refine ⟨fun {n ts us c} enough spells ends rest => ?_⟩
  obtain ⟨qs, hold, kept, run⟩ := h.run (c := { c with row := [] }) enough spells ends rest
  exact ⟨_, ⟨qs, hold, rfl⟩, kept.node plain other, node_eq_ok.mpr ⟨_, run, by simp⟩⟩

theorem group (h : Reads k p (· = []) φ S) (d : Delimiter) (missing : String) (le : k ≤ 8 + m) :
    Reads m (fun read => inGroup d missing (p read)) Whatever
      (fun qs => ∃ parts o c, φ parts ∧ qs = [.group d parts o c]) (grouped d S) := by
  refine ⟨fun {n ts us c} enough spells _ rest => ?_⟩
  rcases c with ⟨_, inside, leftover, row⟩
  rw [grouped, sizeList, size, sizeList] at enough
  obtain ⟨body, o, cl, rfl, within⟩ := spells.exists_of_grouped
  cases rest
  obtain ⟨qs, hold, kept, run⟩ := h.run (n := n) (c := ⟨body, some (d, cl), leftover, []⟩)
    (by omega) within rfl (List.append_nil body).symm
  refine ⟨_, ⟨qs, o, cl, hold, rfl⟩, kept.group d o cl, inGroup_eq_ok.mpr ⟨_, _, _, _, _, rfl, run, ?_⟩⟩
  cases leftover <;> simp [Cursor.leftoverError?]

theorem named {nonterminal : Nonterminal} (h : Reads k (fun read => rule read nonterminal) e φ S) :
    Reads (k + 1) (fun read => read nonterminal) e φ S := by
  refine ⟨fun {n ts us c} enough spells ends rest => ?_⟩
  obtain ⟨n, rfl⟩ : ∃ m, n = m + 1 := ⟨n - 1, by omega⟩
  exact h.run (by omega) spells ends rest

end Yields

namespace Reads

variable {k : Nat} {w m : String}

theorem mark (x : Char) (single : m.toList = [x]) : Reads k (fun _ => Parser.mark m) Whatever
    (fun qs => ∃ e, qs = [.token (.mark x false e)]) (op m) := by
  refine ⟨fun {n ts us c} _ spells _ rest => ?_⟩
  have one : op m = [.mark x false Extent.nowhere] := by rw [op, single]; rfl
  rw [one] at spells ⊢
  cases spells with
  | @mark _ j _ e _ _ _ _ after =>
    cases after
    exact ⟨_, ⟨e, rfl⟩, .token (.mark id .nil) (.mark id .nil),
      (mark_eq_ok x single).mpr ⟨j, e, us, rest, rfl⟩⟩

theorem marks (x y : Char) (chars : m.toList = [x, y]) :
    Reads k (fun _ => Parser.mark m) Whatever Whatever (op m) := by
  refine ⟨fun {n ts us c} _ spells _ rest => ?_⟩
  rcases c with ⟨_, inside, leftover, row⟩
  have two : op m = [.mark x true Extent.nowhere, .mark y false Extent.nowhere] := by
    rw [op, chars]
    rfl
  have length : m.length = 2 := by rw [← String.length_toList, chars]; rfl
  rw [two] at spells ⊢
  cases spells with
  | @mark _ j _ e _ _ _ joined after =>
    cases after with
    | @mark _ j' _ e' _ _ _ _ last =>
      cases last
      cases joined rfl
      cases rest
      have ahead : Ahead.mark m (.mark x true e :: .mark y j' e' :: us) = true := by
        rw [Ahead.mark, chars]
        simp [Ahead.markChars]
      refine ⟨[.token (.mark x true e), .token (.mark y false e')], trivial,
        .append (.token (.mark id .nil) (.mark id .nil)) (.token (.mark id .nil) (.mark id .nil)),
        run_bind_eq_ok.mpr ⟨_, _, peek_run _, ?_⟩⟩
      rw [length]
      exact (congrArg (fun b => (if b = true then takeMarks 2 else _) _) ahead).trans rfl

theorem noMark (m : String) : Reads k (fun _ => discard (Parser.mark? m)) (Ahead.mark m · = false)
    (· = []) [] := by
  refine ⟨fun {n ts us c} _ spells none rest => ?_⟩
  rcases c with ⟨_, inside, leftover, row⟩
  cases spells
  cases rest
  refine ⟨[], rfl, .nil, discard_eq_ok.mpr ⟨false, run_bind_eq_ok.mpr ⟨_, _, peek_run _, ?_⟩⟩⟩
  rw [none]
  rfl

theorem word : Reads k (fun _ => Parser.word w) Whatever Whatever (ident w) := by
  refine ⟨fun {n ts us c} _ spells _ rest => ?_⟩
  cases spells with
  | @name _ e _ _ _ after =>
    cases after
    exact ⟨_, trivial, .token (.name .nil) (.name .nil), word_eq_ok.mpr ⟨e, us, rest, rfl⟩⟩

theorem anyName : Reads k (fun _ => Parser.anyName) Whatever Whatever (ident w) := by
  refine ⟨fun {n ts us c} _ spells _ rest => ?_⟩
  cases spells with
  | name after =>
    cases after
    exact ⟨_, trivial, .token (.name .nil) (.name .nil), anyName_run rest⟩

theorem name (free : w ∉ reservedWords) :
    Reads k (fun _ => Parser.name) Whatever Whatever (ident w) := by
  refine ⟨fun {n ts us c} _ spells _ rest => ?_⟩
  cases spells with
  | name after =>
    cases after
    exact ⟨_, trivial, .token (.name .nil) (.name .nil), name_run rest free⟩

theorem word? : Reads k (fun _ => discard (Parser.word? w)) Whatever Whatever (ident w) := by
  refine ⟨fun {n ts us c} _ spells _ rest => ?_⟩
  cases spells with
  | @name _ e _ _ _ after =>
    cases after
    exact ⟨_, trivial, .token (.name .nil) (.name .nil),
      discard_eq_ok.mpr ⟨true, word?_eq_ok.mpr (.inl ⟨rfl, e, us, rest, rfl⟩)⟩⟩

theorem noWord : Reads k (fun _ => discard (Parser.word? w)) (Ahead.word w · = false) Whatever
    [] := by
  refine ⟨fun {n ts us c} _ spells none rest => ?_⟩
  rcases c with ⟨_, inside, leftover, row⟩
  cases spells
  cases rest
  exact ⟨[], trivial, .nil, discard_eq_ok.mpr ⟨false, word?_eq_ok.mpr (.inr ⟨rfl, none, rfl⟩)⟩⟩

theorem lifetime (text : String) : Reads k (fun _ => Parser.lifetime) Whatever Whatever
    [.lifetime text Extent.nowhere] := by
  refine ⟨fun {n ts us c} _ spells _ rest => ?_⟩
  rcases c with ⟨_, inside, leftover, row⟩
  cases spells with
  | lifetime after =>
    cases after
    cases rest
    exact ⟨[.token (.lifetime text _)], trivial, .token (.lifetime .nil) (.lifetime .nil), rfl⟩

theorem lifetime? (text : String) : Reads k (fun _ => discard Parser.lifetime?) Whatever Whatever
    [.lifetime text Extent.nowhere] := by
  refine ⟨fun {n ts us c} _ spells _ rest => ?_⟩
  rcases c with ⟨_, inside, leftover, row⟩
  cases spells with
  | lifetime after =>
    cases after
    cases rest
    exact ⟨[.token (.lifetime text _)], trivial, .token (.lifetime .nil) (.lifetime .nil), rfl⟩

theorem noLifetime : Reads k (fun _ => discard Parser.lifetime?) (Ahead.lifetime · = false) Whatever
    [] := by
  refine ⟨fun {n ts us c} _ spells none rest => ?_⟩
  rcases c with ⟨_, inside, leftover, row⟩
  cases spells
  cases rest
  refine ⟨[], trivial, .nil, discard_eq_ok.mpr ⟨false, run_bind_eq_ok.mpr ⟨_, _, peek_run _, ?_⟩⟩⟩
  rw [none]
  rfl

theorem literal (text : String) : Reads k (fun _ => Parser.literal) Whatever Whatever
    [.literal text Extent.nowhere] := by
  refine ⟨fun {n ts us c} _ spells _ rest => ?_⟩
  rcases c with ⟨_, inside, leftover, row⟩
  cases spells with
  | literal after =>
    cases after
    cases rest
    exact ⟨[.token (.literal text _)], trivial, .token (.literal .nil) (.literal .nil), rfl⟩

end Reads

end FormulaBinding.Grammar
