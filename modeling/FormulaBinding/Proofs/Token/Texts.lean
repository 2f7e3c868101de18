import FormulaBinding.Proofs.Token.Appending
import FormulaBinding.Proofs.Token.Spelling
import FormulaBinding.Token.Build

/-!
# Texts of tokens

Tokens that are written one after the other, with a blank where they would run together, are read
as these tokens again. Characters are read with what stands behind them, so that no word, number or
operator is cut.
-/

namespace FormulaBinding

namespace Text

instance : DecidablePred IsPlainWord
  | [] => isFalse nofun
  | c :: cs => decidable_of_iff (isNameStart c = true ∧ ∀ d ∈ cs, isNameContinue d = true)
    ⟨fun h => ⟨c, cs, rfl, h⟩, by rintro ⟨_, _, ⟨⟩, h⟩; exact h⟩

instance : DecidablePred IsWord := fun cs =>
  decidable_of_iff (IsPlainWord cs ∨ cs.take 2 = ['r', '#'] ∧ IsPlainWord (cs.drop 2) ∧
    String.ofList (cs.drop 2) ∉ Lexer.neverRaw) <| by
  refine or_congr_right ⟨fun ⟨first, word⟩ => ⟨cs.drop 2, ?_, word⟩, ?_⟩
  · rw [← List.take_append_drop 2 cs, first]
    rfl
  · rintro ⟨v, rfl, word⟩
    exact ⟨rfl, word⟩

end Text

namespace Lexer
open Text Token

variable {c : Char} {cs ds rest v : List Char} {S T : List Token}

/-- Whether characters in front of a text are read as some tokens, whatever has been read before. -/
def Lexes (cs rest : List Char) (S : List Token) : Prop :=
  ∀ p frames done, ∃ ts q, Respells ts S ∧
    run (cs ++ rest) p frames done = run rest q frames (ts.reverse ++ done)

namespace Lexes

theorem nil (rest : List Char) : Lexes [] rest [] := fun p _ _ => ⟨[], p, .nil, rfl⟩

theorem append (first : Lexes cs (ds ++ rest) S) (second : Lexes ds rest T) :
    Lexes (cs ++ ds) rest (S ++ T) := by
  intro p frames done
  obtain ⟨ts, q, spells, read⟩ := first p frames done
  obtain ⟨us, q', spells', read'⟩ := second q frames (ts.reverse ++ done)
  refine ⟨ts ++ us, q', spells.append spells', ?_⟩
  rw [List.append_assoc, read, read', List.reverse_append, List.append_assoc]

theorem word {w : String} (word : IsWord w.toList) (ends : EndsWord rest) (e : Extent) :
    Lexes w.toList rest [.name w e] := by
  intro p frames done
  have read := run_append_of_isWord word ends p frames done
  rw [String.ofList_toList] at read
  exact ⟨[_], _, .name .nil, read⟩

end Lexes

theorem run_blank (space : isSpace c = true) (p : Position) (frames : List Frame)
    (done : List Token) : run (c :: cs) p frames done = run cs (p.advance [c]) frames done := by
  have length {x : Char} {more : List Char} (space : isSpace x = true) :
      spaceLength (x :: more) = (more.takeWhile isSpace).length + 1 := by
    have slash : x ≠ '/' := by
      rintro rfl
      revert space
      decide +kernel
    rw [spaceLength_of_blank (by simp [startsComment_eq, List.isPrefixOf, Ne.symm slash]),
      List.takeWhile_cons_of_pos space, List.length_cons]
  rw [run_space (length space)]
  rcases cs with _ | ⟨x, more⟩
  · rfl
  · cases further : isSpace x with
    | true =>
      rw [run_space (length further), List.takeWhile_cons_of_pos further]
      rfl
    | false =>
      rw [List.takeWhile_cons_of_neg (by rw [further]; exact Bool.false_ne_true)]
      rfl

theorem Lexes.blanks (all : ∀ c ∈ cs, isSpace c = true) : Lexes cs rest [] := by
  induction cs with
  | nil => exact .nil rest
  | cons c cs ih =>
    intro p frames done
    obtain ⟨space, others⟩ := List.forall_mem_cons.mp all
    rw [List.cons_append, run_blank space]
    exact ih others _ frames done

/-- The marks that start neither a comment nor a lifetime. -/
def plainMarks : List Char := "~!@#$%^&*-=+|;:,<>?".toList

theorem literalLength?_of_apart (apart : c ∉ ['"', '\'', 'r', 'b', 'c']) :
    literalLength? (c :: cs) = numberLength? (c :: cs) := by
  refine literalLength?_of_number fun start mem => ?_
  simp only [List.mem_cons, List.not_mem_nil, or_false, not_or] at apart
  obtain ⟨text, single, raw, bytes, foreign⟩ := apart
  simp only [openings, List.map_cons, List.map_nil, List.mem_cons, List.not_mem_nil,
    or_false] at mem
  rcases mem with rfl | rfl | rfl | rfl | rfl | rfl | rfl | rfl <;>
    simp [List.isPrefixOf, Ne.symm text, Ne.symm single, Ne.symm raw, Ne.symm bytes,
      Ne.symm foreign]

theorem literalLength?_of_mem_plainMarks (mem : c ∈ plainMarks) : literalLength? (c :: cs) = none := by
  have other : ∀ c ∈ plainMarks, c.isDigit = false ∧ c ≠ '0' ∧ c ≠ '_' ∧
    Literal.hexValue? c = none ∧ c ∉ ['"', '\'', 'r', 'b', 'c'] := by decide
  obtain ⟨digit, zero, underscore, hex, apart⟩ := other c mem
  have fraction : fractionLength? (c :: cs) = none := by simp [fractionLength?, digit]
  have whole : wholeLength? (c :: cs) = none := by
    have decimal {s : List Char} : ('0' :: s).isPrefixOf (c :: cs) = false := by
      simp [List.isPrefixOf, Ne.symm zero]
    rw [wholeLength?_of_decimal decimal decimal decimal]
    simp [wholeDigits?, underscore, hex]
  rw [literalLength?_of_apart apart, numberLength?, fraction, whole]
  rfl

theorem startsMark_of_mem_plainMarks (mem : c ∈ plainMarks) : startsMark (c :: cs) = true := by
  have other : ∀ c ∈ plainMarks, c ∈ marks ∧ c ≠ '/' := by decide
  obtain ⟨mark, slash⟩ := other c mem
  simp [startsMark, startsComment_eq, List.isPrefixOf, Ne.symm slash, mark]

theorem run_mark (mem : c ∈ plainMarks) (p : Position) (frames : List Frame) (done : List Token) :
    run (c :: cs) p frames done = run cs (p.advance [c]) frames
      (.mark c (startsMark cs) (Extent.covering p [c]) :: done) := by
  have other : ∀ c ∈ plainMarks, c ≠ '/' ∧ c ≠ '\'' ∧ c ∉ ['(', '[', '\x7b'] ∧
    Delimiter.ofClosing? c = none ∧ isSpace c = false := by decide +kernel
  obtain ⟨slash, quote, apart, closing, space⟩ := other c mem
  have opening : opening? (c :: cs) = none := by
    simp only [List.mem_cons, List.not_mem_nil, or_false, not_or] at apart
    simp [opening?, Delimiter.ofOpening?, apart]
  rw [run]
  simp only [spaceLength_of_ne slash space, doc?_of_ne slash, opening, closing,
    leaf?_of_mark p (literalLength?_of_mem_plainMarks mem) (startsMark_of_mem_plainMarks mem) quote]
  rfl

theorem Lexes.mark (mem : c ∈ plainMarks) {j : Bool} (joined : j = true → startsMark rest = true)
    (e : Extent) : Lexes [c] rest [.mark c j e] :=
  fun p frames done => ⟨[_], _, .mark joined .nil, run_mark mem p frames done⟩

def IsLifetime (text : String) : Prop := ∃ v, IsPlainWord v ∧ text.toList = '\'' :: v

instance : DecidablePred IsLifetime := fun text =>
  decidable_of_iff (text.toList.head? = some '\'' ∧ IsPlainWord text.toList.tail) <| by
  constructor
  · rintro ⟨first, word⟩
    refine ⟨_, word, ?_⟩
    cases chars : text.toList with
    | nil => rw [chars] at first; cases first
    | cons c cs => rw [chars] at first; cases first; rfl
  · rintro ⟨v, word, same⟩
    rw [same]
    exact ⟨rfl, word⟩

theorem lifetimeLength?_append (plain : IsPlainWord v) (ends : EndsWord rest) :
    lifetimeLength? (v ++ rest) = some v.length := by
  have name := nameLength?_of_isPlainWord plain ends
  rw [nameLength?] at name
  split_ifs at name
  rw [lifetimeLength?, name]
  dsimp only
  rw [List.drop_left]
  split
  · exact ((ends '\'' rfl).2 (by decide)).elim
  · exact ((ends '#' rfl).2 (by decide)).elim
  · rfl

theorem singleLength?_append (plain : IsPlainWord v) (ends : EndsWord rest) (kind : Quoted) :
    singleLength? kind (v ++ rest) = none := by
  obtain ⟨c, cs, rfl, start, goes⟩ := plain
  have noQuote : (cs ++ rest).head? ≠ some '\'' := head_ne_of_goes goes ends (by decide)
  unfold singleLength?
  split
  · rename_i same
    have other : isNameStart '\\' = false := by decide
    rw [(List.cons.inj same).1, other] at start
    cases start
  · rename_i same
    have second : cs ++ rest = '\'' :: _ := (List.cons.inj same).2
    exact absurd (congrArg List.head? second) noQuote
  · rfl

theorem run_lifetime (plain : IsPlainWord v) (ends : EndsWord rest) (p : Position)
    (frames : List Frame) (done : List Token) :
    run ('\'' :: (v ++ rest)) p frames done = run rest (p.advance ('\'' :: v)) frames
      (.lifetime (String.ofList ('\'' :: v)) (Extent.covering p ['\'']) :: done) := by
  have literal : literalLength? ('\'' :: (v ++ rest)) = none := by
    rw [literalLength?, singleLength?_append plain ends]
    rfl
  have mark : startsMark ('\'' :: (v ++ rest)) = true := rfl
  have leaf : leaf? ('\'' :: (v ++ rest)) p = some (.lifetime (String.ofList ('\'' :: v))
      (Extent.covering p ['\'']), v.length + 1) := by
    have named : nameLength? (v ++ rest) ≠ none := by
      rw [nameLength?_of_isPlainWord plain ends]
      exact Option.some_ne_none _
    unfold leaf?
    simp only [literal, mark, if_true, apostrophe?, lifetimeLength?_append plain ends,
      Option.map_some, if_neg named, List.take_left]
  have space : spaceLength ('\'' :: (v ++ rest)) = 0 :=
    spaceLength_of_ne (by decide) (by decide +kernel)
  have doc : doc? ('\'' :: (v ++ rest)) = none := doc?_of_ne (by decide)
  have opening : opening? ('\'' :: (v ++ rest)) = none := rfl
  have closing : Delimiter.ofClosing? '\'' = none := by decide
  rw [run.eq_def]
  simp only [space, doc, opening, closing, leaf]
  rw [List.drop_left, List.take_left]

theorem Lexes.lifetime {text : String} (life : IsLifetime text) (ends : EndsWord rest)
    (e : Extent) : Lexes text.toList rest [.lifetime text e] := by
  obtain ⟨v, plain, same⟩ := life
  intro p frames done
  have read := run_lifetime plain ends p frames done
  rw [← List.cons_append, ← same, String.ofList_toList] at read
  exact ⟨[_], _, .lifetime .nil, read⟩

def IsNumber (text : String) : Prop :=
  text.toList.head?.any Char.isDigit = true ∧ numberLength? text.toList = some text.toList.length

instance : DecidablePred IsNumber := fun _ => inferInstanceAs (Decidable (_ ∧ _))

theorem Lexes.number {text : String} (number : IsNumber text) (ends : rest = [] ∨ Breaks rest)
    (e : Extent) : Lexes text.toList rest [.literal text e] := by
  obtain ⟨first, whole⟩ := number
  have length : numberLength? (text.toList ++ rest) = some text.toList.length := by
    rcases ends with rfl | breaks
    · rw [List.append_nil, whole]
    · rw [breaks.numberLength?_append, whole]
  intro p frames done
  refine ⟨[.literal text (Extent.covering p text.toList)], p.advance text.toList, .literal .nil, ?_⟩
  obtain ⟨c, cs, same⟩ : ∃ c cs, text.toList = c :: cs :=
    List.exists_cons_of_ne_nil fun none => by rw [none] at first; cases first
  have again : text = String.ofList (c :: cs) := by rw [← same, String.ofList_toList]
  rw [same] at first length ⊢
  have digit : c.isDigit = true := first
  have apart : ∀ x ∈ '/' :: 'r' :: 'b' :: 'c' :: outside, c ≠ x := by
    have none : ∀ x ∈ '/' :: 'r' :: 'b' :: 'c' :: outside, x.isDigit = false := by decide
    rintro x mem rfl
    rw [none c mem] at digit
    cases digit
  have blank : ∀ n ∈ Text.blanks, (Char.ofNat n).isDigit = false := by decide
  have space : spaceLength (c :: (cs ++ rest)) = 0 := spaceLength_of_ne (apart _ (by decide))
    (isSpace_of_apart blank (by decide) (by decide) digit)
  have doc : doc? (c :: (cs ++ rest)) = none := doc?_of_ne (apart _ (by decide))
  have inside : c ∉ outside := fun mem => apart c (by simp [mem]) rfl
  have within : ∀ x ∈ ['"', '\'', 'r', 'b', 'c'], x ∈ '/' :: 'r' :: 'b' :: 'c' :: outside := by
    decide
  have literal : literalLength? (c :: (cs ++ rest)) = some (c :: cs).length := by
    rw [literalLength?_of_apart fun mem => apart c (within c mem) rfl]
    exact length
  have leaf : leaf? (c :: (cs ++ rest)) p = some (.literal (String.ofList (c :: cs))
      (Extent.covering p (c :: cs)), cs.length + 1) := by
    unfold leaf?
    simp only [literal]
    rw [← List.cons_append, List.take_left]
    rfl
  rw [List.cons_append, run.eq_def]
  simp only [space, doc, opening?_of_notMem inside, ofClosing?_of_notMem inside, leaf]
  rw [List.drop_left, List.take_left, again]
  rfl

theorem run_opening {d : Delimiter} (plain : cs.head? ≠ some '/') (p : Position)
    (frames : List Frame) (done : List Token) :
    run (d.opening :: cs) p frames done = run cs (p.next d.opening)
      (⟨d, Extent.covering p [d.opening], done⟩ :: frames) [] := by
  have apart : d.opening ≠ '/' ∧ isSpace d.opening = false ∧
      Delimiter.ofOpening? d.opening = some d := by
    cases d <;> exact ⟨by decide, by decide +kernel, rfl⟩
  obtain ⟨slash, space, opens⟩ := apart
  have faulty : faultyLiteral.isPrefixOf (d.opening :: cs) = false := by
    have second : faultyLiteral = '(' :: '/' :: faultyLiteral.drop 2 := by decide
    rw [second]
    refine Bool.eq_false_iff.mpr fun first => ?_
    obtain ⟨more, same⟩ := exists_of_isPrefixOf first
    exact plain (congrArg List.head? (List.cons.inj same).2)
  have opening : opening? (d.opening :: cs) = some d := by
    rw [opening?, faulty, if_neg Bool.false_ne_true, List.head?_cons, Option.bind_some, opens]
  rw [run]
  simp only [spaceLength_of_ne slash space, doc?_of_ne slash, opening]

theorem run_closing {d : Delimiter} (p : Position) (frame : Frame) (same : frame.delimiter = d)
    (frames : List Frame) (done : List Token) :
    run (d.closing :: rest) p (frame :: frames) done = run rest (p.next d.closing) frames
      (.group d done.reverse frame.opens (Extent.covering p [d.closing]) :: frame.before) := by
  have apart : d.closing ≠ '/' ∧ isSpace d.closing = false ∧ d.closing ∉ ['(', '[', '\x7b'] ∧
      Delimiter.ofClosing? d.closing = some d := by
    cases d <;> exact ⟨by decide, by decide +kernel, by decide, rfl⟩
  obtain ⟨slash, space, other, closes⟩ := apart
  have opening : opening? (d.closing :: rest) = none := by
    simp only [List.mem_cons, List.not_mem_nil, or_false, not_or] at other
    simp [opening?, Delimiter.ofOpening?, other]
  rw [run]
  simp only [spaceLength_of_ne slash space, doc?_of_ne slash, opening, closes, same, if_true]

theorem Lexes.group {d : Delimiter} (inside : Lexes cs (d.closing :: rest) S)
    (plain : cs.head? ≠ some '/') (o c : Extent) :
    Lexes (d.opening :: (cs ++ [d.closing])) rest [.group d S o c] := by
  intro p frames done
  obtain ⟨ts, q, spells, read⟩ := inside (p.next d.opening)
    (⟨d, Extent.covering p [d.opening], done⟩ :: frames) []
  refine ⟨[.group d ts (Extent.covering p [d.opening]) (Extent.covering q [d.closing])],
    q.next d.closing, .group spells .nil, ?_⟩
  have plain' : (cs ++ d.closing :: rest).head? ≠ some '/' := by
    cases cs with
    | nil => cases d <;> simp [Delimiter.closing]
    | cons x more => exact plain
  rw [List.cons_append, List.append_assoc, List.singleton_append, run_opening plain', read,
    @run_closing rest d q _ rfl, List.append_nil, List.reverse_reverse]
  rfl

end Lexer

namespace Token
open Lexer Text

mutual

/-- Whether a token of a type is written as the text of one. -/
def IsWritten : Token → Prop
  | name w _ => IsWord w.toList
  | mark c _ _ => c ∈ plainMarks
  | lifetime text _ => IsLifetime text
  | literal text _ => IsNumber text
  | group d body _ _ => d ≠ .brace ∧ AreWritten body

/-- Whether the tokens of a list are written as texts of tokens, and joined marks are in front of
marks. -/
def AreWritten : List Token → Prop
  | [] => True
  | t :: ts => (IsWritten t ∧ (t.isJoined = true → ∃ c j e us, ts = mark c j e :: us)) ∧ AreWritten ts

end

variable {t : Token} {ts : List Token} {rest : List Char}

theorem toList_text_group {d : Delimiter} (other : d ≠ .brace) (body : List Token) (o c : Extent) :
    (text (.group d body o c)).toList = d.opening :: ((textList body).toList ++ [d.closing]) := by
  rw [text_group]
  cases d with
  | parenthesis => simp [Delimiter.opening, Delimiter.closing]
  | bracket => simp [Delimiter.opening, Delimiter.closing]
  | brace => exact absurd rfl other

theorem head?_text (h : IsWritten t) :
    ∃ c, (text t).toList.head? = some c ∧ c ≠ '/' ∧ c ≠ Char.ofNat 0xfeff := by
  cases t with
  | name w e =>
    obtain ⟨c, cs, same, start⟩ := exists_cons_of_isWord h
    exact ⟨c, by rw [text, same]; rfl, ne_of_isNameStart start (by decide),
      ne_of_isNameStart start (by decide)⟩
  | mark c j e =>
    have other : ∀ c ∈ plainMarks, c ≠ '/' ∧ c ≠ Char.ofNat 0xfeff := by decide
    exact ⟨c, by simp [text], other c h⟩
  | lifetime text e =>
    obtain ⟨v, -, same⟩ := h
    exact ⟨'\'', by rw [Token.text, same]; rfl, by decide, by decide⟩
  | literal text e =>
    have digit := h.1
    rw [Token.text]
    cases first : text.toList.head? with
    | none => rw [first] at digit; cases digit
    | some c =>
      rw [first] at digit
      refine ⟨c, rfl, ?_, ?_⟩ <;>
      · rintro rfl
        cases digit
  | group d body o c =>
    exact ⟨d.opening, by rw [toList_text_group h.1]; rfl, by cases d <;> decide,
      by cases d <;> decide⟩

theorem head?_textList (h : AreWritten ts) : (textList ts).toList.head? ≠ some '/' ∧
    (textList ts).toList.head? ≠ some (Char.ofNat 0xfeff) := by
  cases ts with
  | nil => exact ⟨nofun, nofun⟩
  | cons t ts =>
    obtain ⟨c, first, other⟩ := head?_text h.1.1
    rw [textList_cons, String.toList_append, String.toList_append, List.append_assoc,
      List.head?_append, first]
    simpa using other

theorem endsWord_of_breaks (ends : rest = [] ∨ Breaks rest) : EndsWord rest := by
  rcases ends with rfl | ⟨x, more, rfl, mem⟩
  · exact endsWord_nil
  · have stops : ∀ x ∈ breaks, isNameContinue x = false ∧ x ∉ hooks := by decide
    exact endsWord_cons (stops x mem).1 (stops x mem).2

theorem breaks_closing (d : Delimiter) (rest : List Char) : Breaks (d.closing :: rest) :=
  ⟨_, rest, rfl, by cases d <;> decide⟩

mutual

/-- A token is read again in front of the end and of what ends a word, and a joined mark in front of
a mark. -/
theorem lexes_text {t : Token} {rest : List Char} (h : IsWritten t)
    (ends : t.isJoined = false → rest = [] ∨ Breaks rest)
    (joined : t.isJoined = true → startsMark rest = true) : Lexes (text t).toList rest [t] :=
  match t, h with
  | .name w e, h => .word h (endsWord_of_breaks (ends rfl)) e
  | .mark c j e, h => by
    rw [text, Char.toString_eq_singleton, String.toList_singleton]
    exact .mark h joined e
  | .lifetime text e, h => .lifetime h (endsWord_of_breaks (ends rfl)) e
  | .literal text e, h => .number h (ends rfl) e
  | .group d body o c, h => by
    have inside : Lexes (textList body).toList (d.closing :: rest) body :=
      lexes_textList h.2 (.inr (breaks_closing d rest))
    rw [toList_text_group h.1]
    exact inside.group (head?_textList h.2).1 o c

/-- Tokens are read again in front of the end and of what ends a word. -/
theorem lexes_textList {ts : List Token} {rest : List Char} (h : AreWritten ts)
    (ends : rest = [] ∨ Breaks rest) : Lexes (textList ts).toList rest ts :=
  match ts, h with
  | [], _ => .nil rest
  | t :: ts, h => by
    obtain ⟨⟨first, joins⟩, others⟩ := h
    have later : Lexes (textList ts).toList rest ts := lexes_textList others ends
    rw [textList_cons, String.toList_append, String.toList_append, List.append_assoc]
    cases joined : t.isJoined with
    | true =>
      obtain ⟨c, j, e, us, rfl⟩ := joins joined
      have starts : startsMark ((textList (mark c j e :: us)).toList ++ rest) = true := by
        rw [textList_cons, text, Char.toString_eq_singleton, String.toList_append,
          String.toList_append, String.toList_singleton]
        exact startsMark_of_mem_plainMarks others.1.1
      simpa [joined] using (lexes_text first (by simp [joined]) fun _ => starts).append later
    | false =>
      cases ts with
      | nil => simpa [textList] using lexes_text first (fun _ => ends) (by simp [joined])
      | cons u us =>
        have apart : Breaks (([' '] ++ (textList (u :: us)).toList) ++ rest) :=
          ⟨' ', _, rfl, by decide⟩
        have blank : Lexes [' '] ((textList (u :: us)).toList ++ rest) [] :=
          .blanks (by decide +kernel)
        have whole := (lexes_text first (fun _ => .inr apart) (by simp [joined])).append
          (blank.append later)
        simpa [joined] using whole

end

theorem tokens?_textList (h : AreWritten ts) :
    ∃ us, tokens? (textList ts).toList = some us ∧ Respells us ts := by
  obtain ⟨-, noMark⟩ := head?_textList h
  obtain ⟨us, q, spells, read⟩ := lexes_textList h (.inl rfl) Position.start [] []
  refine ⟨us, ?_, spells⟩
  rw [List.append_nil, List.append_nil, run, List.reverse_reverse] at read
  cases same : (textList ts).toList with
  | nil => rw [same, run] at read; rw [tokens?]; exact read
  | cons c cs =>
    rw [same] at noMark read
    rw [tokens?, if_neg fun mark => noMark (congrArg some mark), read]

theorem areWritten_nil : AreWritten [] := trivial

theorem AreWritten.append {us : List Token} (h : AreWritten ts) (h' : AreWritten us) :
    AreWritten (ts ++ us) := by
  induction ts with
  | nil => exact h'
  | cons t ts ih =>
    obtain ⟨⟨first, joins⟩, others⟩ := h
    refine ⟨⟨first, fun joined => ?_⟩, ih others⟩
    obtain ⟨c, j, e, vs, rfl⟩ := joins joined
    exact ⟨c, j, e, vs ++ us, rfl⟩

theorem areWritten_ident {w : String} (word : IsWord w.toList) : AreWritten (ident w) :=
  ⟨⟨word, nofun⟩, trivial⟩

theorem areWritten_inParens (h : AreWritten ts) : AreWritten (inParens ts) :=
  ⟨⟨⟨nofun, h⟩, nofun⟩, trivial⟩

theorem areWritten_inBrackets (h : AreWritten ts) : AreWritten (inBrackets ts) :=
  ⟨⟨⟨nofun, h⟩, nofun⟩, trivial⟩

theorem areWritten_op {s : String} (all : ∀ c ∈ s.toList, c ∈ plainMarks) : AreWritten (op s) := by
  rw [op]
  generalize s.toList = cs at all
  induction cs with
  | nil => trivial
  | cons c cs ih =>
    obtain ⟨first, others⟩ := List.forall_mem_cons.mp all
    cases cs with
    | nil => exact ⟨⟨first, nofun⟩, trivial⟩
    | cons d cs =>
      refine ⟨⟨first, fun _ => ?_⟩, ih others⟩
      cases cs <;> exact ⟨_, _, _, _, rfl⟩

end Token

end FormulaBinding
