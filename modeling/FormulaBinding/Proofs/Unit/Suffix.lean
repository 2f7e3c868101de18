import FormulaBinding.Proofs.Generation.Acceptance
import FormulaBinding.Proofs.Identifier
import FormulaBinding.Proofs.Unit.Emission

/-!
# Suffixes

A suffix is tried behind a letter. If it is accepted, it is the end of a word with separators behind
it, and behind the name of any trait it makes one word. This word names the generated type, unless
it happens to be a keyword.
-/

namespace FormulaBinding

namespace Text

/-- The part of a text that goes on with a word in front of it. -/
def wordPart (s : String) : String := String.ofList (s.toList.takeWhile isNameContinue)

/-- What follows the part that goes on with a word. -/
def afterWord (s : String) : List Char := s.toList.dropWhile isNameContinue

theorem wordPart_append_afterWord (s : String) : (wordPart s).toList ++ afterWord s = s.toList := by
  rw [wordPart, String.toList_ofList, afterWord, List.takeWhile_append_dropWhile]

theorem isNameContinue_of_mem_wordPart {s : String} {c : Char} (h : c ∈ (wordPart s).toList) :
    isNameContinue c = true := by
  rw [wordPart, String.toList_ofList] at h
  exact List.mem_takeWhile_imp h

theorem stops_afterWord (s : String) (x : Char) (h : (afterWord s).head? = some x) :
    isNameContinue x = false := by
  have head := List.head?_dropWhile_not isNameContinue s.toList
  rw [← afterWord, h] at head
  simpa using head

theorem isPlainWord_append_wordPart {w : List Char} (plain : IsPlainWord w) (s : String) :
    IsPlainWord (w ++ (wordPart s).toList) := by
  obtain ⟨c, cs, rfl, start, goes⟩ := plain
  refine ⟨c, cs ++ (wordPart s).toList, rfl, start, fun d mem => ?_⟩
  exact (List.mem_append.mp mem).elim (goes d) isNameContinue_of_mem_wordPart

end Text

namespace Lexer
open Text

/-- The letter behind which a suffix is tried starts no literal, whatever follows. -/
theorem run_letter (s : String) (p : Position) (frames : List Frame) (done : List Token) :
    run ('X' :: s.toList) p frames done =
      run (afterWord s) (p.advance ('X' :: (wordPart s).toList)) frames
        (.name (String.ofList ('X' :: (wordPart s).toList))
          (Extent.covering p ('X' :: (wordPart s).toList)) :: done) := by
  have start : isNameStart 'X' = true := by decide
  have literal (cs : List Char) : literalLength? ('X' :: cs) = none := by
    have number : literalLength? ('X' :: cs) = numberLength? ('X' :: cs) := rfl
    rw [number, numberLength?_of_isNameStart start]
  have starts (cs : List Char) : literalStarts.any (·.isPrefixOf ('X' :: cs)) = false := rfl
  have length : plainNameLength ('X' :: ((wordPart s).toList ++ afterWord s)) =
      (wordPart s).toList.length + 1 := by
    rw [plainNameLength, if_pos start, wordPart_append_afterWord, wordPart, String.toList_ofList]
  have name : nameLength? ('X' :: ((wordPart s).toList ++ afterWord s)) =
      some ((wordPart s).toList.length + 1) := by
    rw [nameLength?, starts, if_neg Bool.false_ne_true, anyNameLength?, length]
    · rfl
    · intro more same
      exact absurd (List.cons.inj same).1 (by decide)
  rw [← wordPart_append_afterWord s]
  exact run_of_lengths start (literal _) name p frames done

end Lexer

namespace Configuration
open Lexer Text

/-- Behind the part of an accepted suffix that goes on with a word are separators only. -/
theorem isTrivia_of_isSuffix {s : String} (h : isSuffix s = true) : IsTrivia (afterWord s) := by
  rw [isSuffix, Bool.or_eq_true] at h
  rcases h with empty | name
  · rw [beq_iff_eq.mp empty]
    exact isTrivia_nil
  · rw [Identifier.isName, isOk_iff] at name
    obtain ⟨q, read⟩ := name
    obtain ⟨w, e, tokens, -⟩ := Identifier.exists_token_of_readName read
    have whole : ("X" ++ s).toList = 'X' :: s.toList := by simp
    rw [whole, tokens?, if_neg (by decide), run_letter] at tokens
    exact isTrivia_of_run rfl tokens rfl

end Configuration

namespace RenderContext
open Lexer Text

variable {c : RenderContext} {k : UnitKey}

/-- The word that names the type of a key: the name of its trait and the part of the suffix that
goes on with a word. -/
def typeWord (c : RenderContext) (k : UnitKey) : String := k.container ++ wordPart c.suffix

/-- Behind a plain name an accepted suffix leaves one token, a word. -/
theorem tokens?_append_suffix (suffix : Configuration.isSuffix c.suffix = true)
    (plain : Identifier.isPlain k.container = true) :
    ∃ e, tokens? (k.container ++ c.suffix).toList = some [.name (c.typeWord k) e] := by
  have trivia := Configuration.isTrivia_of_isSuffix suffix
  have word := isPlainWord_append_wordPart (Identifier.isPlainWord_of_isPlain plain) c.suffix
  have tokens := tokens?_append_of_isTrivia (.inl word) trivia
    (trivia.endsWord (stops_afterWord c.suffix))
  rw [List.append_assoc, wordPart_append_afterWord, ← String.toList_append,
    ← String.toList_append, String.ofList_toList] at tokens
  exact ⟨_, tokens⟩

theorem unitName_of_notMem (suffix : Configuration.isSuffix c.suffix = true)
    (plain : Identifier.isPlain k.container = true) (free : c.typeWord k ∉ reservedWords) :
    c.unitName k = .ok (c.typeWord k) := by
  obtain ⟨e, tokens⟩ := tokens?_append_suffix suffix plain
  rw [unitName, Identifier.readName_of_tokens? tokens]
  simp only [Identifier.readPhrase_name _ e free]
  rfl

theorem unitName_of_mem (suffix : Configuration.isSuffix c.suffix = true)
    (plain : Identifier.isPlain k.container = true) (reserved : c.typeWord k ∈ reservedWords) :
    ∃ f, c.unitName k = .error (.unitName (k.container ++ c.suffix) f) ∧
      f.fault = .keyword (c.typeWord k) := by
  obtain ⟨e, tokens⟩ := tokens?_append_suffix suffix plain
  obtain ⟨f, read, fault⟩ := Identifier.readPhrase_keyword _ e reserved
  refine ⟨f, ?_, fault⟩
  rw [unitName, Identifier.readName_of_tokens? tokens]
  simp only [read]
  rfl

/-- With an accepted suffix the unit of a proper key is written and named by the trait's name and
the suffix, unless these make a keyword. Then, and for no other reason, it is not written. -/
theorem unit_of_accepted_suffix (g : AcceptedGenerator) {k : UnitKey} {p : Phrase}
    (path : traitPath k = .ok p) (members : List (List Token)) :
    (g.1.context.typeWord k ∉ reservedWords → g.1.context.unitName k =
        .ok (g.1.context.typeWord k) ∧ ∃ ts, g.1.context.unit k members = .ok ts) ∧
      (g.1.context.typeWord k ∈ reservedWords → ∃ f,
        g.1.context.unit k members = .error (.unitName (k.container ++ g.1.context.suffix) f) ∧
          f.fault = .keyword (g.1.context.typeWord k)) := by
  obtain ⟨same, suffix⟩ := g.suffix_context
  rw [← same] at suffix
  have plain := isPlain_of_traitPath path
  constructor
  · intro free
    have name := unitName_of_notMem suffix plain free
    exact ⟨name, _, bind_eq_ok.mpr ⟨p, path, bind_eq_ok.mpr ⟨_, name, rfl⟩⟩⟩
  · intro reserved
    obtain ⟨f, name, fault⟩ := unitName_of_mem suffix plain reserved
    refine ⟨f, ?_, fault⟩
    rw [unit, path]
    simp only [bind, Except.bind, name]

/-- The generator of the configuration with a suffix that is the end of many words. -/
def commonEnding : AcceptedGenerator := .ofConfiguration { suffix := "te" } (by decide +kernel)

theorem unit_of_accepted_suffix_of_keyword :
    (∃ ts, commonEnding.1.context.unit ⟨"crate", "Sta"⟩ [] = .ok ts) ∧
      ∃ f, commonEnding.1.context.unit ⟨"crate", "cra"⟩ [] = .error (.unitName "crate" f) ∧
        f.fault = .keyword "crate" := by
  have suffix : commonEnding.1.context.suffix = "te" := by
    rw [commonEnding.suffix_context.1, commonEnding,
      AcceptedGenerator.configuration_ofConfiguration]
  have path (container : String) (ok : (traitPath ⟨"crate", container⟩).isOk = true) :=
    isOk_iff.mp ok
  have word (container : String) :
      commonEnding.1.context.typeWord ⟨"crate", container⟩ = container ++ wordPart "te" := by
    rw [typeWord, suffix]
  have part : wordPart "te" = "te" := by decide
  constructor
  · obtain ⟨p, read⟩ := path "Sta" (by decide +kernel)
    refine ((unit_of_accepted_suffix commonEnding read []).1 ?_).2
    rw [word, part]
    decide
  · obtain ⟨p, read⟩ := path "cra" (by decide +kernel)
    have found := (unit_of_accepted_suffix commonEnding read []).2 (by rw [word, part]; decide)
    rw [word, part, suffix] at found
    exact found

end RenderContext

end FormulaBinding
