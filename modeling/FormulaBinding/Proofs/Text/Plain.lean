import FormulaBinding.Proofs.Identifier

/-!
# Plain identifiers

A plain identifier is a word of the host language that is not raw, no keyword and no lone
underscore, and that consists of letters, numbers and underscores. A word may have other characters
too, such as combining marks, and is then no plain identifier.
-/

namespace FormulaBinding

namespace Text

namespace CodePoints

/-- A set on the way past its boundaries: those that are left, and whether the place is inside. -/
abbrev Walk := List Nat × Bool

/-- Passes a place, which may be the next boundary. -/
def Walk.pass (place : Nat) : Walk → Walk
  | (bound :: bounds, inside) =>
    if bound = place then (bounds, !inside) else (bound :: bounds, inside)
  | walk => walk

/-- The next boundary of any of several sets. -/
def next? (walks : List Walk) : Option Nat := (walks.filterMap (·.1.head?)).min?

/-- Whether a property of memberships holds between all boundaries of several sets, tried from one
boundary to the next, at most `n` of them. -/
def holdsFor (p : List Bool → Bool) : Nat → List Walk → Bool
  | 0, _ => false
  | n + 1, walks =>
    p (walks.map (·.2)) &&
      match next? walks with
      | some place => holdsFor p n (walks.map (Walk.pass place))
      | none => true

theorem covers_pass {place n : Nat} (le : place ≤ n) (walk : Walk) :
    covers (walk.pass place).1 (walk.pass place).2 n = covers walk.1 walk.2 n := by
  rcases walk with ⟨_ | ⟨bound, bounds⟩, inside⟩
  · rfl
  · rw [Walk.pass]
    split_ifs with same
    · rw [covers_of_le (same ▸ le)]
    · rfl

theorem covers_of_forall_lt {walk : Walk} {n : Nat} (h : ∀ bound ∈ walk.1.head?, n < bound) :
    covers walk.1 walk.2 n = walk.2 := by
  rcases walk with ⟨_ | ⟨bound, bounds⟩, inside⟩
  · rfl
  · exact covers_of_lt (h bound rfl)

/-- What holds between all boundaries holds for every code point. -/
theorem of_holdsFor {p : List Bool → Bool} {steps : Nat} {walks : List Walk}
    (h : holdsFor p steps walks = true) (n : Nat) :
    p (walks.map fun walk => covers walk.1 walk.2 n) = true := by
  induction steps generalizing walks with
  | zero => cases h
  | succ steps ih =>
    rw [holdsFor, Bool.and_eq_true] at h
    obtain ⟨here, later⟩ := h
    by_cases before : ∀ walk ∈ walks, ∀ bound ∈ walk.1.head?, n < bound
    · have same : walks.map (fun walk => covers walk.1 walk.2 n) = walks.map (·.2) :=
        List.map_congr_left fun walk mem => covers_of_forall_lt (before walk mem)
      rwa [same]
    · simp only [not_forall, Nat.not_lt] at before
      obtain ⟨walk, mem, bound, first, le⟩ := before
      have among : bound ∈ walks.filterMap (·.1.head?) := List.mem_filterMap.mpr ⟨walk, mem, first⟩
      cases least : next? walks with
      | none =>
        rw [next?, List.min?_eq_none_iff] at least
        rw [least] at among
        exact absurd among List.not_mem_nil
      | some place =>
        rw [least] at later
        have le : place ≤ n := ((List.min?_eq_some_iff.mp least).2 bound among).trans le
        have passed := ih later
        rw [List.map_map] at passed
        have same : (walks.map fun walk => covers walk.1 walk.2 n) = walks.map
            ((fun walk => covers walk.1 walk.2 n) ∘ Walk.pass place) :=
          List.map_congr_left fun walk _ => (covers_pass le walk).symm
        rwa [same]

end CodePoints

/-- No number that is no letter starts an identifier. -/
theorem isAlphabetic_of_numeric {c : Char} (number : numeric.contains c = true)
    (start : xidStart.contains c = true) : isAlphabetic c = true := by
  have tables : CodePoints.holdsFor (· != [true, true, false]) 4000
      [(numeric.bounds, false), (xidStart.bounds, false), (alphabetic.bounds, false)] = true := by
    decide +kernel
  have here : [numeric.contains c, xidStart.contains c, isAlphabetic c] ≠ [true, true, false] :=
    bne_iff_ne.mp (CodePoints.of_holdsFor tables c.toNat)
  rw [number, start] at here
  by_contra other
  exact here (by rw [Bool.eq_false_iff.mpr other])

theorem isAlphabetic_of_isAlphanumeric {c : Char} (start : isNameStart c = true)
    (h : isAlphanumeric c = true ∨ c = '_') : isAlphabetic c = true ∨ c = '_' := by
  refine h.imp_left fun h => ?_
  rw [isNameStart, Bool.or_eq_true, beq_iff_eq] at start
  rcases start with rfl | start
  · cases h
  · rw [isAlphanumeric, Bool.or_eq_true] at h
    exact h.elim id fun number => isAlphabetic_of_numeric number start

end Text

namespace Identifier
open Grammar

/-- Whether the whole of a text is one name to the lexer, and not a raw one. -/
def IsPlainToken (s : String) : Prop :=
  (∃ e, Lexer.tokens? s.toList = some [.name s e]) ∧ ¬ ['r', '#'] <+: s.toList

theorem not_isPrefix_of_isPlainWord {cs : List Char} (plain : Text.IsPlainWord cs) :
    ¬ ['r', '#'] <+: cs := by
  rintro ⟨rest, rfl⟩
  obtain ⟨c, more, same, -, goes⟩ := plain
  have hash : '#' ∈ more := (List.cons.inj same).2 ▸ List.mem_cons_self
  exact absurd (goes '#' hash) (by decide)

/-- Such a text starts as a name may start and goes on as a name may go on. -/
theorem isPlainToken_iff {s : String} : IsPlainToken s ↔ Text.IsPlainWord s.toList := by
  constructor
  · rintro ⟨⟨e, tokens⟩, bare⟩
    have proper : Text.IsWord s.toList := (Lexer.areProper_of_tokens? tokens).1
    refine proper.resolve_right ?_
    rintro ⟨v, raw, -⟩
    exact bare ⟨v, raw.symm⟩
  · intro plain
    have tokens := Lexer.tokens?_of_isWord (.inl plain)
    rw [String.ofList_toList] at tokens
    exact ⟨⟨_, tokens⟩, not_isPrefix_of_isPlainWord plain⟩

theorem mem_keywords_of_mem_reservedWords {w : String} (h : w ∈ reservedWords) (other : w ≠ "_") :
    w ∈ keywords := by
  have all : ∀ w ∈ reservedWords, w = "_" ∨ w ∈ keywords := by decide
  exact (all w h).resolve_left other

/-- The plain identifiers are the words of the language, raw ones, keywords and the lone underscore
apart, whose characters are letters, numbers and underscores. Words with other characters are none,
though the language allows them. -/
theorem isPlain_iff (s : String) : isPlain s = true ↔
    (IsPlainToken s ∧ s ≠ "_" ∧ s ∉ keywords) ∧
      ∀ c ∈ s.toList, Text.isAlphanumeric c = true ∨ c = '_' := by
  rw [isPlainToken_iff]
  constructor
  · intro plain
    have word := isPlainWord_of_isPlain plain
    rw [isPlain] at plain
    split at plain
    · cases plain
    · rename_i first rest chars
      simp only [Bool.and_eq_true, List.all_eq_true, Bool.or_eq_true, Bool.not_eq_true',
        List.contains_eq_mem, decide_eq_false_iff_not, bne_iff_ne, beq_iff_eq] at plain
      obtain ⟨⟨⟨⟨free, other⟩, -⟩, all⟩, -⟩ := plain
      exact ⟨⟨word, other, free⟩, chars ▸ all⟩
  · rintro ⟨⟨word, other, free⟩, all⟩
    have reserved : s ∉ reservedWords := fun h => free (mem_keywords_of_mem_reservedWords h other)
    obtain ⟨e, read⟩ := readName_of_isName ⟨.inl word, reserved⟩
    obtain ⟨first, rest, chars, start, -⟩ := word
    have letter := Text.isAlphabetic_of_isAlphanumeric start (all first (chars ▸ List.mem_cons_self))
    rw [chars] at all
    rw [isPlain, chars]
    simp only [Bool.and_eq_true, List.all_eq_true, Bool.or_eq_true, Bool.not_eq_true',
      List.contains_eq_mem, decide_eq_false_iff_not, bne_iff_ne, beq_iff_eq]
    refine ⟨⟨⟨⟨free, other⟩, letter⟩, all⟩, ?_⟩
    rw [isName, read]
    rfl

/-- A letter with a combining accent behind it is a word, but no plain identifier. -/
example : isPlain (String.ofList ['e', Char.ofNat 0x301]) = false ∧
    Text.isNameContinue (Char.ofNat 0x301) = true := by decide +kernel

end Identifier

end FormulaBinding
