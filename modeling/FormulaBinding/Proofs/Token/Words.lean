import FormulaBinding.Token.Lexer
import Mathlib.Data.List.TakeWhile
import Mathlib.Tactic.ByContra
import Mathlib.Tactic.SplitIfs

/-!
# Words

The names among the tokens of a text are words: identifiers as they stand, or raw ones. A word that
ends, where nothing that follows could belong to it or to a literal, is one token.
-/

namespace FormulaBinding

/-- Whether a text is an identifier as it stands, which may be a keyword. -/
def Text.IsPlainWord (cs : List Char) : Prop :=
  ∃ c rest, cs = c :: rest ∧ isNameStart c = true ∧ ∀ d ∈ rest, isNameContinue d = true

/-- Whether a text is a plain or a raw identifier. -/
def Text.IsWord (cs : List Char) : Prop :=
  IsPlainWord cs ∨ ∃ v, cs = 'r' :: '#' :: v ∧ IsPlainWord v ∧ String.ofList v ∉ Lexer.neverRaw

namespace Text

/-! ## The first character of a word -/

theorem toNat_of_isNameStart {c : Char} (h : isNameStart c = true) : 65 ≤ c.toNat := by
  by_contra low
  have low : c.toNat < 65 := by omega
  have outside : xidStart.contains c = false := CodePoints.covers_of_lt low
  rw [isNameStart, outside, Bool.or_false, beq_iff_eq] at h
  subst h
  exact absurd low (by decide)

/-- Characters that stand in no word and to which the lexer gives a meaning. -/
def outside : List Char :=
  ['"', '#', '\'', '(', ')', '/', ':', '[', ']', '\x7b', '\x7d', Char.ofNat 0x200e,
    Char.ofNat 0x200f, Char.ofNat 0xfeff]

theorem isNameStart_of_mem_outside : ∀ x ∈ outside, isNameStart x = false := by decide +kernel

theorem isNameContinue_of_mem_outside : ∀ x ∈ outside, isNameContinue x = false := by
  decide +kernel

theorem notMem_outside_of_isNameStart {c : Char} (h : isNameStart c = true) : c ∉ outside := by
  intro mem
  rw [isNameStart_of_mem_outside c mem] at h
  cases h

theorem ne_of_notMem_outside {c x : Char} (h : c ∉ outside) (hx : x ∈ outside) : c ≠ x :=
  fun same => h (same ▸ hx)

theorem ne_of_isNameStart {c x : Char} (h : isNameStart c = true) (hx : x ∈ outside) : c ≠ x :=
  ne_of_notMem_outside (notMem_outside_of_isNameStart h) hx

theorem ne_of_isNameContinue {c x : Char} (h : isNameContinue c = true) (hx : x ∈ outside) :
    c ≠ x := by
  rintro rfl
  rw [isNameContinue_of_mem_outside c hx] at h
  cases h

def blanks : List Nat :=
  [9, 10, 11, 12, 13, 32, 133, 160, 5760, 8192, 8193, 8194, 8195, 8196, 8197, 8198, 8199, 8200,
    8201, 8202, 8232, 8233, 8239, 8287, 12288]

theorem mem_blanks {c : Char} (h : isBlank c = true) : c.toNat ∈ blanks := by
  rw [isBlank, CodePoints.contains, whiteSpace] at h
  generalize c.toNat = n at h
  simp only [CodePoints.covers, Bool.not_false, Bool.not_true, Bool.if_false_left,
    Bool.if_true_left, Bool.or_eq_true, Bool.and_eq_true, decide_eq_true_eq, Bool.not_eq_true',
    decide_eq_false_iff_not, Bool.or_false] at h
  simp only [blanks, List.mem_cons, List.not_mem_nil, or_false]
  omega

/-- A property that no blank and no mark of writing direction has keeps a character from being a
separator. -/
theorem isSpace_of_apart {p : Char → Bool} (blank : ∀ n ∈ blanks, p (Char.ofNat n) = false)
    (left : p (Char.ofNat 0x200e) = false) (right : p (Char.ofNat 0x200f) = false) {c : Char}
    (h : p c = true) : Lexer.isSpace c = false := by
  by_contra space
  rw [Bool.not_eq_false, Lexer.isSpace, Bool.or_eq_true, Bool.or_eq_true] at space
  rcases space with (space | space) | space
  · have same := blank _ (mem_blanks space)
    rw [Char.ofNat_toNat, h] at same
    cases same
  · rw [beq_iff_eq.mp space, left] at h
    cases h
  · rw [beq_iff_eq.mp space, right] at h
    cases h

theorem isSpace_of_isNameStart {c : Char} (h : isNameStart c = true) :
    Lexer.isSpace c = false := by
  have blank : ∀ n ∈ blanks, isNameStart (Char.ofNat n) = false := by decide +kernel
  exact isSpace_of_apart blank (isNameStart_of_mem_outside _ (by decide))
    (isNameStart_of_mem_outside _ (by decide)) h

theorem notMem_marks_of_isNameStart {c : Char} (h : isNameStart c = true) : c ∉ Lexer.marks := by
  have apart : ∀ m ∈ Lexer.marks, isNameStart m = false := by decide
  intro mem
  rw [apart c mem] at h
  cases h

theorem isDigit_of_isNameStart {c : Char} (h : isNameStart c = true) : c.isDigit = false := by
  have late := toNat_of_isNameStart h
  rw [Char.isDigit, Bool.and_eq_false_iff]
  refine .inr (decide_eq_false ?_)
  intro low
  have low : c.toNat ≤ 57 := low
  omega

end Text

namespace Lexer
open Text

/-! ## What does not start with a word -/

variable {c : Char} {cs : List Char}

theorem spaceLength_of_ne (slash : c ≠ '/') (space : isSpace c = false) :
    spaceLength (c :: cs) = 0 := by
  unfold spaceLength
  split
  case h_1 => rfl
  case h_2 c' cs' same =>
    obtain ⟨rfl, rfl⟩ := List.cons.inj same
    dsimp only
    split
    case h_10 => rw [space, if_neg Bool.false_ne_true]
    all_goals
      rename_i starts _
      exact absurd (List.cons.inj starts).1 slash

theorem spaceLength_of_isNameStart (h : isNameStart c = true) : spaceLength (c :: cs) = 0 :=
  spaceLength_of_ne (ne_of_isNameStart h (by decide)) (isSpace_of_isNameStart h)

theorem doc?_of_ne (slash : c ≠ '/') : doc? (c :: cs) = none := by
  unfold doc?
  split <;> simp_all

theorem doc?_of_isNameStart (h : isNameStart c = true) : doc? (c :: cs) = none :=
  doc?_of_ne (ne_of_isNameStart h (by decide))

theorem opening?_of_notMem (h : c ∉ outside) : opening? (c :: cs) = none := by
  have parenthesis : c ≠ '(' := ne_of_notMem_outside h (by decide)
  have bracket : c ≠ '[' := ne_of_notMem_outside h (by decide)
  have brace : c ≠ '{' := ne_of_notMem_outside h (by decide)
  simp [opening?, Delimiter.ofOpening?, parenthesis, bracket, brace]

theorem opening?_of_isNameStart (h : isNameStart c = true) : opening? (c :: cs) = none :=
  opening?_of_notMem (notMem_outside_of_isNameStart h)

theorem ofClosing?_of_notMem (h : c ∉ outside) : Delimiter.ofClosing? c = none := by
  have parenthesis : c ≠ ')' := ne_of_notMem_outside h (by decide)
  have bracket : c ≠ ']' := ne_of_notMem_outside h (by decide)
  have brace : c ≠ '}' := ne_of_notMem_outside h (by decide)
  simp [Delimiter.ofClosing?, parenthesis, bracket, brace]

theorem ofClosing?_of_isNameStart (h : isNameStart c = true) : Delimiter.ofClosing? c = none :=
  ofClosing?_of_notMem (notMem_outside_of_isNameStart h)

theorem startsMark_of_isNameStart (h : isNameStart c = true) : startsMark (c :: cs) = false := by
  simp [startsMark, notMem_marks_of_isNameStart h]

theorem le_hexValue {v : Nat} (h : isNameStart c = true) (hex : Literal.hexValue? c = some v) :
    10 ≤ v := by
  have late := toNat_of_isNameStart h
  rw [Literal.hexValue?] at hex
  split_ifs at hex with decimal
  · have low : c.toNat ≤ 57 := decimal.2
    omega
  · cases hex
    omega
  · cases hex
    omega

theorem wholeLength?_of_isNameStart (h : isNameStart c = true) : wholeLength? (c :: cs) = none := by
  have zero : c ≠ '0' := by
    rintro rfl
    exact absurd (isDigit_of_isNameStart h) (by decide)
  unfold wholeLength?
  split
  case h_4 =>
    rw [wholeDigits?]
    by_cases underscore : c = '_'
    · simp [underscore]
    · rw [if_neg underscore]
      cases hex : Literal.hexValue? c with
      | none => rfl
      | some v =>
        have large := le_hexValue h hex
        simp [Nat.not_lt.mpr large]
  all_goals
    rename_i starts
    exact absurd (List.cons.inj starts).1 zero

theorem numberLength?_of_isNameStart (h : isNameStart c = true) :
    numberLength? (c :: cs) = none := by
  have fraction : fractionLength? (c :: cs) = none := by
    simp [fractionLength?, isDigit_of_isNameStart h]
  simp [numberLength?, fraction, wholeLength?_of_isNameStart h]

/-! ## A word that ends -/

/-- The characters that make a literal or a raw identifier of the word in front of them. -/
def hooks : List Char := ['"', '#', '\'']

theorem mem_outside_of_mem_hooks : ∀ x ∈ hooks, x ∈ outside := by decide

/-- Whether a text ends, or goes on with what belongs to no word in front of it. -/
def EndsWord (rest : List Char) : Prop :=
  ∀ x, rest.head? = some x → isNameContinue x = false ∧ x ∉ hooks

theorem endsWord_nil : EndsWord [] := nofun

theorem endsWord_cons {x : Char} {more : List Char} (stops : isNameContinue x = false)
    (free : x ∉ hooks) : EndsWord (x :: more) := by
  rintro y ⟨⟩
  exact ⟨stops, free⟩

theorem endsWord_colon (more : List Char) : EndsWord (':' :: more) :=
  endsWord_cons (isNameContinue_of_mem_outside ':' (by decide)) (by decide)

theorem plainNameLength_append {v rest : List Char} (plain : IsPlainWord v)
    (ends : EndsWord rest) : plainNameLength (v ++ rest) = v.length := by
  obtain ⟨c, cs, rfl, start, goes⟩ := plain
  have stop : rest.takeWhile isNameContinue = [] := by
    cases rest with
    | nil => rfl
    | cons x more =>
      have stops := (ends x rfl).1
      exact List.takeWhile_cons_of_neg (by rw [stops]; exact Bool.false_ne_true)
  have whole : (cs ++ rest).takeWhile isNameContinue = cs := by
    rw [List.takeWhile_append_of_pos goes, stop, List.append_nil]
  rw [List.cons_append, plainNameLength, if_pos start, whole, List.length_cons]

section
variable {v rest : List Char}

theorem head_ne_of_goes (goes : ∀ d ∈ v, isNameContinue d = true) (ends : EndsWord rest)
    {x : Char} (hook : x ∈ hooks) : (v ++ rest).head? ≠ some x := by
  cases v with
  | nil => exact fun same => (ends x same).2 hook
  | cons d ds =>
    have apart : d ≠ x :=
      ne_of_isNameContinue (goes d List.mem_cons_self) (mem_outside_of_mem_hooks x hook)
    simpa using apart

/-- A text of word characters and of characters that hook on to a word, one of these among them,
does not start what follows. -/
theorem not_isPrefixOf_of_goes {start : List Char} (goes : ∀ d ∈ v, isNameContinue d = true)
    (ends : EndsWord rest) (hooked : ∃ x ∈ start, x ∈ hooks)
    (shape : ∀ x ∈ start, isNameContinue x = true ∨ x ∈ hooks) :
    start.isPrefixOf (v ++ rest) = false := by
  induction v generalizing start with
  | nil =>
    obtain ⟨x, hx, -⟩ := hooked
    cases start with
    | nil => cases hx
    | cons s ss =>
      cases rest with
      | nil => rfl
      | cons y more =>
        have apart : s ≠ y := by
          rintro rfl
          obtain ⟨stops, free⟩ := ends s rfl
          rcases shape s List.mem_cons_self with goes | hook
          · rw [stops] at goes
            cases goes
          · exact free hook
        simp [List.isPrefixOf, apart]
  | cons d ds ih =>
    obtain ⟨x, hx, hook⟩ := hooked
    cases start with
    | nil => cases hx
    | cons s ss =>
      by_cases same : s = d
      · subst same
        have apart : s ≠ x :=
          ne_of_isNameContinue (goes s List.mem_cons_self) (mem_outside_of_mem_hooks x hook)
        have later : x ∈ ss := (List.mem_cons.mp hx).resolve_left (Ne.symm apart)
        have tail := ih (fun d hd => goes d (List.mem_cons_of_mem s hd)) ⟨x, later, hook⟩
          (fun y hy => shape y (List.mem_cons_of_mem s hy))
        simpa [List.isPrefixOf] using tail
      · simp [List.isPrefixOf, same]

theorem hashedLength?_of_head_ne {kind : Quoted} {cs : List Char} (hash : cs.head? ≠ some '#')
    (quote : cs.head? ≠ some '"') : hashedLength? kind cs = none := by
  cases cs with
  | nil => rfl
  | cons c cs =>
    have c_hash : c ≠ '#' := fun same => hash (same ▸ rfl)
    have c_quote : c ≠ '"' := fun same => quote (same ▸ rfl)
    have none : (c :: cs).takeWhile (· == '#') = [] :=
      List.takeWhile_cons_of_neg (by simpa using c_hash)
    rw [hashedLength?, none]
    simp only [List.length_nil, List.drop_zero]
    split
    · rename_i starts
      exact absurd (List.cons.inj starts).1 c_quote
    · rfl

theorem literalLength?_of_isPlainWord (plain : IsPlainWord v) (ends : EndsWord rest) :
    literalLength? (v ++ rest) = none := by
  obtain ⟨c, cs, rfl, start, goes⟩ := plain
  have quote : c ≠ '"' := ne_of_isNameStart start (by decide)
  have apostrophe : c ≠ '\'' := ne_of_isNameStart start (by decide)
  have next {x : Char} (hook : x ∈ hooks) : (cs ++ rest).head? ≠ some x :=
    head_ne_of_goes goes ends hook
  have raw {kind : Quoted} : hashedLength? kind (cs ++ rest) = none :=
    hashedLength?_of_head_ne (next (by decide)) (next (by decide))
  have later {kind : Quoted} {more : List Char} (same : cs ++ rest = 'r' :: more) :
      hashedLength? kind more = none := by
    cases cs with
    | nil =>
      have first : rest.head? = some 'r' := congrArg List.head? same
      exact absurd (ends 'r' first).1 (by decide)
    | cons d ds =>
      obtain ⟨rfl, rfl⟩ := List.cons.inj same
      have goes : ∀ d ∈ ds, isNameContinue d = true :=
        fun d hd => goes d (List.mem_cons_of_mem _ hd)
      exact hashedLength?_of_head_ne (head_ne_of_goes goes ends (by decide))
        (head_ne_of_goes goes ends (by decide))
  rw [List.cons_append]
  unfold literalLength?
  split
  case h_9 => exact numberLength?_of_isNameStart start
  all_goals
    rename_i starts
    obtain ⟨first, second⟩ := List.cons.inj starts
  case h_1 => exact absurd first quote
  case h_2 => exact absurd first apostrophe
  case h_3 => rw [← second, raw]; rfl
  case h_4 => exact absurd (congrArg List.head? second) (next (by decide))
  case h_5 => rw [later second]; rfl
  case h_6 => exact absurd (congrArg List.head? second) (next (by decide))
  case h_7 => exact absurd (congrArg List.head? second) (next (by decide))
  case h_8 => rw [later second]; rfl

theorem nameLength?_of_isPlainWord (plain : IsPlainWord v) (ends : EndsWord rest) :
    nameLength? (v ++ rest) = some v.length := by
  have length := plainNameLength_append plain ends
  obtain ⟨c, cs, rfl, start, goes⟩ := plain
  have shape : ∀ s ∈ literalStarts, s ≠ [] ∧ (∃ x ∈ s.tail, x ∈ hooks) ∧
      ∀ x ∈ s.tail, isNameContinue x = true ∨ x ∈ hooks := by decide
  have plain : literalStarts.any (·.isPrefixOf (c :: (cs ++ rest))) = false := by
    rw [List.any_eq_false]
    intro s hs
    obtain ⟨some, hooked, shape⟩ := shape s hs
    cases s with
    | nil => exact absurd rfl some
    | cons s ss =>
      have tail : ss.isPrefixOf (cs ++ rest) = false :=
        not_isPrefixOf_of_goes goes ends hooked shape
      rw [List.isPrefixOf, tail, Bool.and_false]
      exact Bool.false_ne_true
  rw [List.cons_append] at length ⊢
  rw [nameLength?, plain, if_neg Bool.false_ne_true, anyNameLength?]
  · rw [length]
    rfl
  · intro more starts
    have second : cs ++ rest = '#' :: more := (List.cons.inj starts).2
    exact head_ne_of_goes goes ends (by decide) (congrArg List.head? second)

theorem literalLength?_of_raw (plain : IsPlainWord v) :
    literalLength? ('r' :: '#' :: (v ++ rest)) = none := by
  obtain ⟨c, cs, rfl, start, -⟩ := plain
  have hash : c ≠ '#' := ne_of_isNameStart start (by decide)
  have quote : c ≠ '"' := ne_of_isNameStart start (by decide)
  simp [literalLength?, hashedLength?, hash, quote]

theorem nameLength?_of_raw (plain : IsPlainWord v) (free : String.ofList v ∉ neverRaw)
    (ends : EndsWord rest) : nameLength? ('r' :: '#' :: (v ++ rest)) = some (v.length + 2) := by
  have length := plainNameLength_append plain ends
  have positive : v.length ≠ 0 := by
    obtain ⟨c, cs, rfl, -⟩ := plain
    simp
  have word : (v ++ rest).take v.length = v := List.take_left
  obtain ⟨c, cs, rfl, start, -⟩ := plain
  have hash : '#' ≠ c := (ne_of_isNameStart start (by decide)).symm
  have quote : '"' ≠ c := (ne_of_isNameStart start (by decide)).symm
  have apart : literalStarts.any (·.isPrefixOf ('r' :: '#' :: (c :: cs ++ rest))) = false := by
    simp [literalStarts, List.isPrefixOf, hash, quote]
  rw [nameLength?, apart, if_neg Bool.false_ne_true, anyNameLength?, length, if_neg]
  rw [word]
  exact fun bad => bad.elim positive free

theorem lengths_of_isWord (word : IsWord v) (ends : EndsWord rest) :
    literalLength? (v ++ rest) = none ∧ nameLength? (v ++ rest) = some v.length := by
  rcases word with plain | ⟨v, rfl, plain, free⟩
  · exact ⟨literalLength?_of_isPlainWord plain ends, nameLength?_of_isPlainWord plain ends⟩
  · exact ⟨literalLength?_of_raw plain, nameLength?_of_raw plain free ends⟩

theorem exists_cons_of_isWord (word : IsWord v) :
    ∃ c cs, v = c :: cs ∧ isNameStart c = true := by
  rcases word with ⟨c, cs, rfl, start, -⟩ | ⟨v, rfl, -⟩
  · exact ⟨c, cs, rfl, start⟩
  · exact ⟨'r', '#' :: v, rfl, by decide⟩

theorem run_of_lengths (start : isNameStart c = true) {v rest : List Char}
    (literal : literalLength? (c :: (v ++ rest)) = none)
    (name : nameLength? (c :: (v ++ rest)) = some (v.length + 1)) (p : Position)
    (frames : List Frame) (done : List Token) :
    run (c :: (v ++ rest)) p frames done = run rest (p.advance (c :: v)) frames
      (.name (String.ofList (c :: v)) (Extent.covering p (c :: v)) :: done) := by
  have all : (c :: (v ++ rest)).take (v.length + 1) = c :: v := by simp
  have leaf : leaf? (c :: (v ++ rest)) p =
      some (.name (String.ofList (c :: v)) (Extent.covering p (c :: v)), v.length + 1) := by
    unfold leaf?
    rw [literal, startsMark_of_isNameStart start, name]
    simp only [Bool.false_eq_true, if_false, all]
  rw [run]
  simp only [spaceLength_of_isNameStart start, doc?_of_isNameStart start,
    opening?_of_isNameStart start, ofClosing?_of_isNameStart start, leaf]
  rw [List.drop_left, List.take_left]

theorem run_append_of_isWord (word : IsWord v) (ends : EndsWord rest) (p : Position)
    (frames : List Frame) (done : List Token) :
    run (v ++ rest) p frames done =
      run rest (p.advance v) frames (.name (String.ofList v) (Extent.covering p v) :: done) := by
  obtain ⟨literal, name⟩ := lengths_of_isWord word ends
  obtain ⟨c, cs, rfl, start⟩ := exists_cons_of_isWord word
  exact run_of_lengths start literal name p frames done

end

theorem tokens?_of_isWord {v : List Char} (word : IsWord v) :
    tokens? v = some [.name (String.ofList v) (Extent.covering Position.start v)] := by
  have single := run_append_of_isWord word endsWord_nil Position.start [] []
  rw [List.append_nil] at single
  obtain ⟨c, cs, rfl, start⟩ := exists_cons_of_isWord word
  have mark : c ≠ Char.ofNat 0xfeff := ne_of_isNameStart start (by decide)
  rw [tokens?, if_neg mark, single]
  unfold run
  rfl

/-! ## Words between double colons -/

theorem leaf?_colon (p : Position) : leaf? (':' :: cs) p =
    some (.mark ':' (startsMark cs) (Extent.covering p [':']), 1) := by
  have number : literalLength? (':' :: cs) = numberLength? (':' :: cs) := rfl
  have fraction : fractionLength? (':' :: cs) = none := rfl
  have whole : wholeLength? (':' :: cs) = none := rfl
  have none : literalLength? (':' :: cs) = none := by
    rw [number, numberLength?, fraction, whole]
    rfl
  have mark : startsMark (':' :: cs) = true := rfl
  unfold leaf?
  rw [none, mark]
  rfl

theorem run_colon (p : Position) (frames : List Frame) (done : List Token) :
    run (':' :: cs) p frames done = run cs (p.advance [':']) frames
      (.mark ':' (startsMark cs) (Extent.covering p [':']) :: done) := by
  have space : spaceLength (':' :: cs) = 0 := spaceLength_of_ne (by decide) (by decide)
  have doc : doc? (':' :: cs) = none := doc?_of_ne (by decide)
  have opening : opening? (':' :: cs) = none := rfl
  have closing : Delimiter.ofClosing? ':' = none := by decide
  rw [run]
  simp only [space, doc, opening, closing, leaf?_colon]
  rfl

/-- The characters of words with double colons in front of them. -/
def colonChars (ws : List String) : List Char := ws.flatMap fun w => ':' :: ':' :: w.toList

/-- Tokens of words with double colons in front of them. -/
inductive AreSegments : List String → List Token → Prop
  | nil : AreSegments [] []
  | cons {w : String} {ws : List String} {ts : List Token} (e e' e'' : Extent)
      (others : AreSegments ws ts) :
      AreSegments (w :: ws) (.mark ':' true e :: .mark ':' false e' :: .name w e'' :: ts)

theorem endsWord_colonChars (ws : List String) : EndsWord (colonChars ws) := by
  cases ws with
  | nil => exact endsWord_nil
  | cons w ws => exact endsWord_colon _

theorem run_colonChars {ws : List String} (words : ∀ w ∈ ws, IsWord w.toList) (p : Position)
    (done : List Token) :
    ∃ ts, run (colonChars ws) p [] done = some (done.reverse ++ ts) ∧ AreSegments ws ts := by
  induction ws generalizing p done with
  | nil =>
    refine ⟨[], ?_, .nil⟩
    rw [colonChars, List.flatMap_nil, run, List.append_nil]
  | cons w ws ih =>
    have word := words w List.mem_cons_self
    have others := fun v hv => words v (List.mem_cons_of_mem w hv)
    obtain ⟨c, cs, first, start⟩ := exists_cons_of_isWord word
    have apart : startsMark (w.toList ++ colonChars ws) = false := by
      rw [first]
      exact startsMark_of_isNameStart start
    have whole : colonChars (w :: ws) = ':' :: ':' :: (w.toList ++ colonChars ws) := rfl
    have joined : startsMark (':' :: (w.toList ++ colonChars ws)) = true := rfl
    rw [whole, run_colon, run_colon, joined, apart,
      run_append_of_isWord word (endsWord_colonChars ws), String.ofList_toList]
    obtain ⟨ts, read, segments⟩ := ih others _ (.name w (Extent.covering
      ((p.advance [':']).advance [':']) w.toList) ::
        .mark ':' false (Extent.covering (p.advance [':']) [':']) ::
          .mark ':' true (Extent.covering p [':']) :: done)
    have later := AreSegments.cons (w := w) (Extent.covering p [':'])
      (Extent.covering (p.advance [':']) [':'])
      (Extent.covering ((p.advance [':']).advance [':']) w.toList) segments
    refine ⟨_, read.trans (congrArg some ?_), later⟩
    rw [List.reverse_cons, List.reverse_cons, List.reverse_cons]
    simp only [List.append_assoc, List.cons_append, List.nil_append]

theorem tokens?_of_path {root : String} {ws : List String} (first : IsWord root.toList)
    (words : ∀ w ∈ ws, IsWord w.toList) :
    ∃ e ts, tokens? (root.toList ++ colonChars ws) = some (.name root e :: ts) ∧
      AreSegments ws ts := by
  have start := run_append_of_isWord first (endsWord_colonChars ws) Position.start [] []
  obtain ⟨c, cs, same, isStart⟩ := exists_cons_of_isWord first
  have mark : c ≠ Char.ofNat 0xfeff := ne_of_isNameStart isStart (by decide)
  obtain ⟨ts, read, segments⟩ := run_colonChars words (Position.start.advance root.toList)
    [.name root (Extent.covering Position.start root.toList)]
  refine ⟨Extent.covering Position.start root.toList, ts, ?_, segments⟩
  rw [String.ofList_toList, read] at start
  rw [same, List.cons_append, tokens?, if_neg mark, ← List.cons_append, ← same, start]
  rfl

/-! ## The names among tokens -/

theorem isPlainWord_take {cs : List Char} (some : plainNameLength cs ≠ 0) :
    IsPlainWord (cs.take (plainNameLength cs)) := by
  cases cs with
  | nil => exact absurd rfl some
  | cons c cs =>
    rw [plainNameLength] at some ⊢
    split_ifs at some ⊢ with start
    · rw [List.take_succ_cons]
      refine ⟨c, _, rfl, start, fun d hd => ?_⟩
      have taken := List.prefix_iff_eq_take.mp (List.takeWhile_prefix isNameContinue (l := cs))
      rw [← taken] at hd
      exact List.mem_takeWhile_imp hd
    · exact absurd rfl some

theorem isWord_take {cs : List Char} {n : Nat} (h : nameLength? cs = some n) :
    IsWord (cs.take n) := by
  rw [nameLength?] at h
  split_ifs at h
  unfold anyNameLength? at h
  split at h
  · dsimp only at h
    split_ifs at h with bad
    rw [not_or] at bad
    cases h
    exact .inr ⟨_, rfl, isPlainWord_take bad.1, bad.2⟩
  · dsimp only at h
    split_ifs at h with zero
    cases h
    exact .inl (isPlainWord_take zero)

end Lexer

namespace Token

mutual

def IsProper : Token → Prop
  | name text _ => Text.IsWord text.toList
  | group _ body _ _ => AreProper body
  | _ => True

def AreProper : List Token → Prop
  | [] => True
  | t :: ts => IsProper t ∧ AreProper ts

end

theorem areProper_iff {ts : List Token} : AreProper ts ↔ ∀ t ∈ ts, IsProper t := by
  induction ts with
  | nil => simp [AreProper]
  | cons t ts ih => simp [AreProper, ih]

theorem AreProper.append {ts us : List Token} (first : AreProper ts) (second : AreProper us) :
    AreProper (ts ++ us) := by
  rw [areProper_iff] at *
  intro t ht
  exact (List.mem_append.mp ht).elim (first t) (second t)

theorem AreProper.reverse {ts : List Token} (h : AreProper ts) : AreProper ts.reverse := by
  rw [areProper_iff] at *
  intro t ht
  exact h t (List.mem_reverse.mp ht)

end Token

namespace Lexer
open Token

theorem isProper_of_leaf? {cs : List Char} {p : Position} {t : Token} {n : Nat}
    (h : leaf? cs p = some (t, n)) : t.IsProper := by
  unfold leaf? at h
  dsimp only at h
  split at h
  · cases h
    trivial
  · by_cases mark : startsMark cs = true
    · rw [if_pos mark] at h
      split at h
      · rw [apostrophe?, Option.map_eq_some_iff] at h
        obtain ⟨m, -, h⟩ := h
        split_ifs at h <;> (cases h; trivial)
      · cases h
        trivial
      · cases h
    · rw [if_neg mark] at h
      split at h
      · rename_i length
        cases h
        rw [IsProper, String.toList_ofList]
        exact isWord_take length
      · split_ifs at h
        cases h
        trivial

theorem areProper_tokens (doc : Doc) (e : Extent) : AreProper (doc.tokens e) := by
  have word : Text.IsWord ['d', 'o', 'c'] :=
    .inl ⟨'d', ['o', 'c'], rfl, by decide, by decide⟩
  rw [Doc.tokens]
  split_ifs <;> simp [AreProper, IsProper, word]

/-- What is read so far is proper at every step. -/
theorem areProper_run {cs : List Char} {p : Position} {frames : List Frame}
    {done ts : List Token} (outer : ∀ f ∈ frames, AreProper f.before) (inner : AreProper done)
    (h : run cs p frames done = some ts) : AreProper ts := by
  fun_induction run cs p frames done
  case case1 done =>
    cases h
    exact inner.reverse
  case case3 ih => exact ih outer inner h
  case case4 ih => exact ih outer ((areProper_tokens _ _).reverse.append inner) h
  case case5 done _ _ _ _ _ _ ih =>
    refine ih (fun f hf => ?_) trivial h
    rcases List.mem_cons.mp hf with rfl | hf
    · exact inner
    · exact outer f hf
  case case7 frame frames _ ih =>
    have before := outer frame List.mem_cons_self
    simp only [List.unattach_reverse, List.unattach_attach] at ih
    exact ih (fun f hf => outer f (List.mem_cons_of_mem _ hf)) ⟨inner.reverse, before⟩ h
  case case9 token n leaf ih =>
    exact ih outer ⟨isProper_of_leaf? leaf, inner⟩ h
  all_goals cases h

/-- The names among the tokens of a text are words. -/
theorem areProper_of_tokens? {cs : List Char} {ts : List Token} (h : tokens? cs = some ts) :
    AreProper ts := by
  have outer : ∀ f ∈ ([] : List Frame), AreProper f.before := by simp
  have inner : AreProper [] := trivial
  unfold tokens? at h
  split at h
  · split_ifs at h
    · exact areProper_run outer inner h
    · exact areProper_run outer inner h
  · cases h
    trivial

end Lexer

end FormulaBinding
