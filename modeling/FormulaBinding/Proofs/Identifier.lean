import FormulaBinding.Identifier
import FormulaBinding.Proofs.Grammar.Steps
import FormulaBinding.Proofs.Grammar.Written
import FormulaBinding.Proofs.Token.Trivia

/-!
# Names that are stored and written

A word that is no keyword is a name. It is stored without the mark of a raw identifier, and what is
stored is written as a name again, which is stored as before.
-/

namespace FormulaBinding

def Text.IsName (w : String) : Prop := IsWord w.toList ∧ w ∉ reservedWords

namespace Identifier
open Grammar

theorem exists_token_of_readName {s : String} {q : Phrase} (h : readName s = .ok q) :
    ∃ w e, Lexer.tokens? s.toList = some [.name w e] ∧ w ∉ reservedWords := by
  obtain ⟨ts, tokens, h⟩ := bind_eq_ok.mp h
  obtain ⟨⟨_, row⟩, run, -⟩ := bind_eq_ok.mp h
  obtain ⟨d, run, rest, -⟩ := Parser.runAll_eq_ok.mp run
  obtain ⟨w, e, ts', same, free, rfl⟩ := Parser.name_eq_ok.mp run
  cases same
  cases rest
  refine ⟨w, e, ?_, free⟩
  rw [tokensOf] at tokens
  split at tokens
  · rename_i ts' lexed
    cases tokens
    exact lexed
  · cases tokens

theorem readName_of_tokens? {s : String} {w : String} {e : Extent}
    (h : Lexer.tokens? s.toList = some [.name w e]) :
    readName s = readPhrase (fun _ => Parser.name) [.name w e] := by
  rw [readName, tokensOf, h]
  rfl

theorem readPhrase_name (w : String) (e : Extent) (free : w ∉ reservedWords) :
    readPhrase (fun _ => Parser.name) [.name w e] = .ok (.token (.name w e)) := by
  have run : Parser.name.runAll [.name w e] = .ok ((), [.token (.name w e)]) :=
    Parser.runAll_eq_ok.mpr ⟨_, Parser.name_eq_ok.mpr ⟨w, e, [], rfl, free, rfl⟩, rfl, rfl, rfl⟩
  rw [readPhrase, readTokens, run]
  exact congrArg _ (writeTo_token _)

/-- A keyword is no name, and the fault says so. -/
theorem readPhrase_keyword (w : String) (e : Extent) (reserved : w ∈ reservedWords) :
    ∃ f, readPhrase (fun _ => Parser.name) [.name w e] = .error f ∧ f.fault = .keyword w := by
  have inside : reservedWords.contains w = true := List.contains_iff_mem.mpr reserved
  let start : Cursor := { rest := [.name w e] }
  have step : Parser.name start =
      (if reservedWords.contains w then Parser.fail (.keyword w) else Parser.take) start := rfl
  have failed : Parser.name start = .error (start.error (.keyword w)) := by
    rw [step, if_pos inside]
    rfl
  have run : Parser.name.runAll [.name w e] = .error (start.error (.keyword w)) := by
    rw [Parser.runAll, failed]
    rfl
  refine ⟨start.error (.keyword w), ?_, rfl⟩
  rw [readPhrase, readTokens, run]
  rfl

theorem readName_of_isWord {w : String} (word : Text.IsWord w.toList) :
    readName w = readPhrase (fun _ => Parser.name)
      [.name w (Extent.covering Position.start w.toList)] := by
  have tokens := Lexer.tokens?_of_isWord word
  rw [String.ofList_toList] at tokens
  exact readName_of_tokens? tokens

theorem readName_of_isName {w : String} (name : Text.IsName w) :
    ∃ e, readName w = .ok (.token (.name w e)) := by
  refine ⟨Extent.covering Position.start w.toList, ?_⟩
  rw [readName_of_isWord name.1]
  exact readPhrase_name w _ name.2

theorem readName_of_mem_reservedWords {w : String} (word : Text.IsWord w.toList)
    (reserved : w ∈ reservedWords) : ∃ e, readName w = .error e := by
  rw [readName_of_isWord word]
  obtain ⟨f, read, -⟩ := readPhrase_keyword w (Extent.covering Position.start w.toList) reserved
  exact ⟨f, read⟩

theorem exists_of_readName {s : String} {q : Phrase} (h : readName s = .ok q) :
    ∃ w e, q = .token (.name w e) ∧ w ∉ reservedWords := by
  obtain ⟨w, e, tokens, free⟩ := exists_token_of_readName h
  rw [readName_of_tokens? tokens, readPhrase_name w e free] at h
  exact ⟨w, e, (Except.ok.inj h).symm, free⟩

theorem notMem_reservedWords_of_written {name w : String} (h : written name = .ok w) :
    w ∉ reservedWords := by
  unfold written at h
  split at h
  · rename_i read
    obtain ⟨v, e, rfl, free⟩ := exists_of_readName read
    cases h
    exact free
  · split_ifs at h
    split at h
    · rename_i read
      obtain ⟨v, e, rfl, free⟩ := exists_of_readName read
      cases h
      exact free
    · cases h

/-- A plain identifier has letters, digits and underscores only. -/
theorem notMem_of_isPlain {s : String} {c : Char} (h : isPlain s = true)
    (hc : (Text.isAlphanumeric c || c == '_') = false) : c ∉ s.toList := by
  intro mem
  rw [isPlain] at h
  split at h
  · cases h
  · rename_i first rest chars
    rw [chars] at mem
    simp only [Bool.and_eq_true, List.all_eq_true] at h
    rw [h.1.2 c mem] at hc
    cases hc

section
open Lexer Text

/-- A letter, a digit or an underscore starts neither a separator nor a group. -/
theorem apart_of_isAlphanumeric {c : Char} (h : (isAlphanumeric c || c == '_') = true) :
    isSpace c = false ∧ c ∉ outside := by
  have none : ∀ x ∈ outside, (isAlphanumeric x || x == '_') = false := by decide +kernel
  have blank : ∀ n ∈ blanks, (isAlphanumeric (Char.ofNat n) || Char.ofNat n == '_') = false := by
    decide +kernel
  refine ⟨isSpace_of_apart (p := fun c => isAlphanumeric c || c == '_') blank
    (none _ (by decide)) (none _ (by decide)) h, fun mem => ?_⟩
  rw [none c mem] at h
  cases h

theorem isPlainWord_of_isPlain {w : String} (h : isPlain w = true) : IsPlainWord w.toList := by
  rw [isPlain] at h
  split at h
  · cases h
  · rename_i first rest chars
    simp only [Bool.and_eq_true, List.all_eq_true] at h
    obtain ⟨⟨-, all⟩, name⟩ := h
    rw [isName, isOk_iff] at name
    obtain ⟨q, read⟩ := name
    obtain ⟨v, e, tokens, -⟩ := exists_token_of_readName read
    have apart (c : Char) (mem : c ∈ w.toList) := apart_of_isAlphanumeric (all c (chars ▸ mem))
    have same : v = w := String.toList_inj.mp (eq_of_tokens? tokens apart)
    have proper := (areProper_of_tokens? tokens).1
    rw [Token.IsProper, same] at proper
    rcases proper with plain | ⟨u, raw, -⟩
    · exact plain
    · have hash : '#' ∈ w.toList := raw ▸ List.mem_cons_of_mem _ List.mem_cons_self
      exact absurd (by decide) (apart '#' hash).2

theorem isName_of_isPlain {w : String} (h : isPlain w = true) : Text.IsName w := by
  have word := isPlainWord_of_isPlain h
  refine ⟨.inl word, fun reserved => ?_⟩
  obtain ⟨e, refused⟩ := readName_of_mem_reservedWords (.inl word) reserved
  unfold isPlain at h
  split at h
  · cases h
  · rw [isName, refused, Bool.and_eq_true] at h
    exact absurd h.2 Bool.false_ne_true

end

theorem stored_of_isPlainWord {w : String} (plain : Text.IsPlainWord w.toList) : stored w = w := by
  obtain ⟨c, cs, same, -, goes⟩ := plain
  rw [stored]
  split
  · rename_i rest dropped
    rw [Text.dropStart?_eq_some_iff, same] at dropped
    obtain ⟨-, tail⟩ := List.cons.inj dropped
    have hash := goes '#' (tail ▸ List.mem_cons_self)
    exact absurd hash (by decide)
  · rfl

theorem stored_of_raw {w : String} {v : List Char} (raw : w.toList = 'r' :: '#' :: v) :
    stored w = String.ofList v := by
  have dropped : Text.dropStart? ['r', '#'] w.toList = some v :=
    Text.dropStart?_eq_some_iff.mpr raw
  rw [stored, dropped]

/-- A name that is stored is written as a name that is stored in the same way. -/
theorem exists_written_stored {w : String} (name : Text.IsName w) :
    ∃ v, written (stored w) = .ok v ∧ Text.IsName v ∧ stored v = stored w := by
  rcases name.1 with plain | ⟨v, raw, plain, free⟩
  · obtain ⟨e, read⟩ := readName_of_isName name
    refine ⟨w, ?_, name, rfl⟩
    rw [stored_of_isPlainWord plain, written, read]
    rfl
  · have same := stored_of_raw raw
    rw [same]
    have plain' : Text.IsPlainWord (String.ofList v).toList := by rwa [String.toList_ofList]
    by_cases reserved : String.ofList v ∈ reservedWords
    · obtain ⟨e, refused⟩ := readName_of_mem_reservedWords (.inl plain') reserved
      obtain ⟨e', read⟩ := readName_of_isName name
      have whole : "r#" ++ String.ofList v = w := by
        rw [← String.toList_inj, String.toList_append, raw]
        simp only [String.toList_ofList]
        rfl
      have bare : isPlain (String.ofList v) = false := by
        have none : isName (String.ofList v) = false := by
          rw [isName, refused]
          rfl
        unfold isPlain
        split
        · rfl
        · rw [none, Bool.and_false]
      refine ⟨w, ?_, name, same⟩
      rw [written, refused]
      simp only [bare, Bool.false_eq_true, if_false, whole, read]
      rfl
    · have named : Text.IsName (String.ofList v) := ⟨.inl plain', reserved⟩
      obtain ⟨e, read⟩ := readName_of_isName named
      refine ⟨String.ofList v, ?_, named, stored_of_isPlainWord plain'⟩
      rw [written, read]
      rfl

end Identifier

end FormulaBinding
