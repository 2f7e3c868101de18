import FormulaBinding.Configuration.Setting
import FormulaBinding.Proofs.Declaration.Prelude
import FormulaBinding.Proofs.Json.Printing
import Mathlib.Data.List.TakeWhile
import Mathlib.Data.Nat.Notation

/-!
# Texts of markers

A text is read as a marker if and only if it is the text of that marker with double colons in front
and blanks around. So the text of a marker is a normal form: it is read as the marker again, which
is then written down as before.
-/

namespace FormulaBinding

namespace Text

variable {before cs after : List Char}

theorem exists_trim (s : String) : ∃ before after, s.toList = before ++ (trim s).toList ++ after ∧
    (∀ c ∈ before, isBlank c = true) ∧ ∀ c ∈ after, isBlank c = true := by
  have right := congrArg List.reverse
    (List.takeWhile_append_dropWhile (p := isBlank) (l := (trimLeft s.toList).reverse))
  rw [List.reverse_append, List.reverse_reverse] at right
  refine ⟨s.toList.takeWhile isBlank, ((trimLeft s.toList).reverse.takeWhile isBlank).reverse,
    ?_, fun c mem => List.mem_takeWhile_imp mem,
    fun c mem => List.mem_takeWhile_imp (List.mem_reverse.mp mem)⟩
  rw [trim, String.toList_ofList, trimRight, List.append_assoc, right, trimLeft,
    List.takeWhile_append_dropWhile]

theorem dropWhile_blank_append (blank : ∀ c ∈ before, isBlank c = true)
    (apart : ∀ c ∈ cs.head?, isBlank c = false) : (before ++ cs).dropWhile isBlank = cs := by
  rw [List.dropWhile_append_of_pos blank]
  cases cs with
  | nil => rfl
  | cons c cs => rw [List.dropWhile_cons_of_neg (by simp [apart c rfl])]

/-- Blanks around a text that neither starts nor ends with one are taken off. -/
theorem trim_of_blank_around {s : String} (whole : s.toList = before ++ cs ++ after)
    (front : ∀ c ∈ before, isBlank c = true) (back : ∀ c ∈ after, isBlank c = true)
    (first : ∀ c ∈ (cs ++ after).head?, isBlank c = false)
    (last : ∀ c ∈ cs.getLast?, isBlank c = false) : trim s = String.ofList cs := by
  have left : trimLeft s.toList = cs ++ after := by
    rw [trimLeft, whole, List.append_assoc]
    exact dropWhile_blank_append front first
  rw [trim, left, trimRight, List.reverse_append, dropWhile_blank_append, List.reverse_reverse]
  · exact fun c mem => back c (List.mem_reverse.mp mem)
  · rwa [List.head?_reverse]

def colons : ℕ → List Char
  | 0 => []
  | k + 1 => ':' :: ':' :: colons k

theorem dropLeadingColons_colons (k : ℕ) (cs : List Char) :
    dropLeadingColons (colons k ++ cs) = dropLeadingColons cs := by
  induction k with
  | zero => rfl
  | succ k ih => exact ih

theorem exists_dropLeadingColons (cs : List Char) : ∃ k, cs = colons k ++ dropLeadingColons cs := by
  fun_induction dropLeadingColons cs with
  | case1 cs ih =>
    obtain ⟨k, same⟩ := ih
    exact ⟨k + 1, congrArg (fun cs => ':' :: ':' :: cs) same⟩
  | case2 cs => exact ⟨0, rfl⟩

theorem not_isPrefix_dropLeadingColons (cs : List Char) :
    ¬ [':', ':'] <+: dropLeadingColons cs := by
  fun_induction dropLeadingColons cs with
  | case1 cs ih => exact ih
  | case2 cs other =>
    rintro ⟨rest, rfl⟩
    exact other rest rfl

theorem dropLeadingColons_of_ne {c : Char} (h : c ≠ ':') (cs : List Char) :
    dropLeadingColons (c :: cs) = c :: cs := by
  rw [dropLeadingColons]
  rintro rest ⟨⟩
  exact h rfl

end Text

namespace Marker

variable {m : Marker} {path scope name : String}

/-- Whether a marker has a plain name and a proper module path. -/
def IsProper (m : Marker) : Prop := Identifier.isPlain m.name = true ∧ isScope m.scope = true

theorem make_eq_ok : make scope name = .ok m ↔ m = ⟨scope, name⟩ ∧ m.IsProper := by
  constructor
  · intro made
    refine ⟨?_, proper_of_make made⟩
    rw [make] at made
    split_ifs at made
    exact (Except.ok.inj made).symm
  · rintro ⟨rfl, plain, proper⟩
    rw [make, plain, proper]
    rfl

/-- A module path: nothing at all, or plain identifiers and `crate` with double colons between. -/
def IsModulePath (scope : String) : Prop :=
  scope = "" ∨ ∃ words, words ≠ [] ∧ (∀ w ∈ words, Identifier.isPlain w = true ∨ w = "crate") ∧
    scope = Text.joinSegments words

theorem isScope_iff : isScope scope = true ↔ IsModulePath scope := by
  rw [isScope, Bool.or_eq_true, beq_iff_eq, List.all_eq_true]
  simp only [Bool.or_eq_true, beq_iff_eq]
  refine or_congr_right ⟨fun all => ⟨_, ?_, all, (Text.joinSegments_segments scope).symm⟩, ?_⟩
  · simp [Text.segments, Text.splitColons_ne_nil]
  · rintro ⟨words, some, all, rfl⟩
    rw [Text.segments_joinSegments some]
    · exact all
    · intro w mem
      obtain plain | rfl := all w mem
      · exact Identifier.notMem_of_isPlain plain (by decide)
      · decide

abbrev IsWordChar (c : Char) : Prop := (Text.isAlphanumeric c || c == '_') = true

theorem IsWordChar.isBlank_eq {c : Char} (h : IsWordChar c) : Text.isBlank c = false := by
  have space := (Identifier.apart_of_isAlphanumeric h).1
  rw [Lexer.isSpace, Bool.or_eq_false_iff, Bool.or_eq_false_iff] at space
  exact space.1.1

theorem IsWordChar.ne_colon {c : Char} (h : IsWordChar c) : c ≠ ':' := by
  rintro rfl
  exact absurd h (by decide)

theorem isWordChar_of_isPlain (plain : Identifier.isPlain name = true) :
    ∀ c ∈ name.toList, IsWordChar c := by
  intro c mem
  by_contra other
  exact Identifier.notMem_of_isPlain plain (Bool.eq_false_iff.mpr other) mem

theorem exists_cons_of_isPlain (plain : Identifier.isPlain name = true) :
    ∃ c cs, name.toList = c :: cs ∧ IsWordChar c := by
  obtain ⟨c, cs, same, -⟩ := Identifier.isPlainWord_of_isPlain plain
  exact ⟨c, cs, same, isWordChar_of_isPlain plain c (same ▸ List.mem_cons_self)⟩

/-- A module path starts with a character of its first word. -/
theorem exists_cons_of_isModulePath (h : IsModulePath scope) (some : scope ≠ "") :
    ∃ c cs, scope.toList = c :: cs ∧ IsWordChar c := by
  obtain ⟨words, filled, all, rfl⟩ := h.resolve_left some
  obtain ⟨w, words, rfl⟩ := List.exists_cons_of_ne_nil filled
  obtain ⟨c, cs, first, word⟩ : ∃ c cs, w.toList = c :: cs ∧ IsWordChar c := by
    obtain plain | rfl := all w List.mem_cons_self
    · exact exists_cons_of_isPlain plain
    · exact ⟨'c', _, rfl, by decide⟩
  rw [Text.joinSegments, String.toList_intercalate, List.map_cons, first,
    List.intercalate_cons_cons_left]
  exact ⟨c, _, rfl, word⟩

/-- The text of a marker starts with a character of its first word. -/
theorem exists_cons_text (h : m.IsProper) : ∃ c cs, m.text.toList = c :: cs ∧ IsWordChar c := by
  by_cases empty : m.scope = ""
  · rw [text_of_scope_eq empty]
    exact exists_cons_of_isPlain h.1
  · obtain ⟨c, cs, same, word⟩ := exists_cons_of_isModulePath (isScope_iff.mp h.2) empty
    rw [text_of_scope_ne empty, String.toList_append, String.toList_append, same]
    exact ⟨c, _, rfl, word⟩

/-- The text of a marker ends with a character of its name. -/
theorem isWordChar_of_getLast?_text (h : m.IsProper) {c : Char}
    (last : c ∈ m.text.toList.getLast?) : IsWordChar c := by
  obtain ⟨_, _, same, -⟩ := exists_cons_of_isPlain h.1
  have inside : c ∈ m.name.toList.getLast? := by
    by_cases empty : m.scope = ""
    · rwa [text_of_scope_eq empty] at last
    · rw [text_of_scope_ne empty, String.toList_append, List.getLast?_append_of_ne_nil] at last
      · exact last
      · exact same ▸ List.cons_ne_nil _ _
  exact isWordChar_of_isPlain h.1 c (List.mem_of_mem_getLast? inside)

/-- Whether a text is that of a marker, with double colons in front and blanks around. -/
def IsShownBy (m : Marker) (path : String) : Prop :=
  ∃ before k after, path.toList = before ++ (Text.colons k ++ m.text.toList) ++ after ∧
    (∀ c ∈ before, Text.isBlank c = true) ∧ ∀ c ∈ after, Text.isBlank c = true

/-- What is split is joined again, unless it starts with a double colon. -/
theorem joinPath_splitPath (bare : ¬ [':', ':'] <+: path.toList) :
    joinPath (Imports.splitPath path).1 (Imports.splitPath path).2 = path := by
  have spells := Imports.spells_splitPath path
  generalize (Imports.splitPath path).1 = scope at spells ⊢
  generalize (Imports.splitPath path).2 = name at spells ⊢
  cases spells with
  | alone => rfl
  | within =>
    rw [joinPath, if_neg]
    rintro rfl
    exact bare ⟨name.toList, by simp⟩

theorem ofPath_eq_make (path : String) : ∃ rest : String, ¬ [':', ':'] <+: rest.toList ∧
    rest.toList = Text.dropLeadingColons (Text.trim path).toList ∧
      ofPath path = make (Imports.splitPath rest).1 (Imports.splitPath rest).2 := by
  refine ⟨String.ofList (Text.dropLeadingColons (Text.trim path).toList), ?_, ?_, ?_⟩
  · rw [String.toList_ofList]
    exact Text.not_isPrefix_dropLeadingColons _
  · rw [String.toList_ofList]
  · rw [ofPath, Imports.splitPath, String.toList_ofList]
    cases Text.splitLastColons? (Text.dropLeadingColons (Text.trim path).toList) <;> rfl

/-- A text is read as a proper marker that it shows, and as no other. -/
theorem ofPath_eq_ok_iff : ofPath path = .ok m ↔ m.IsProper ∧ m.IsShownBy path := by
  obtain ⟨rest, bare, stripped, read⟩ := ofPath_eq_make path
  rw [read, make_eq_ok]
  constructor
  · rintro ⟨same, proper⟩
    have text : m.text = rest := by
      rw [same]
      exact joinPath_splitPath bare
    obtain ⟨before, after, whole, blank⟩ := Text.exists_trim path
    obtain ⟨k, front⟩ := Text.exists_dropLeadingColons (Text.trim path).toList
    rw [← stripped, ← text] at front
    exact ⟨proper, before, k, after, front ▸ whole, blank⟩
  · rintro ⟨proper, before, k, after, whole, front, back⟩
    obtain ⟨c, cs, start, word⟩ := exists_cons_text proper
    have trimmed : Text.trim path = String.ofList (Text.colons k ++ m.text.toList) := by
      refine Text.trim_of_blank_around whole front back ?_ ?_
      · cases k with
        | zero =>
          rw [start]
          rintro _ ⟨⟩
          exact word.isBlank_eq
        | succ k =>
          rintro _ ⟨⟩
          decide
      · intro x last
        rw [List.getLast?_append_of_ne_nil _ (start ▸ List.cons_ne_nil c cs)] at last
        exact (isWordChar_of_getLast?_text proper last).isBlank_eq
    have text : rest = m.text := by
      rw [← String.toList_inj, stripped, trimmed, String.toList_ofList,
        Text.dropLeadingColons_colons, start, Text.dropLeadingColons_of_ne word.ne_colon]
    have colon : ':' ∉ m.name.toList := Identifier.notMem_of_isPlain proper.1 (by decide)
    rw [text, splitPath_text colon]
    exact ⟨rfl, proper⟩

theorem isShownBy_text (m : Marker) : m.IsShownBy m.text :=
  ⟨[], 0, [], by simp [Text.colons], List.forall_mem_nil _, List.forall_mem_nil _⟩

theorem ofPath_text (h : m.IsProper) : ofPath m.text = .ok m :=
  ofPath_eq_ok_iff.mpr ⟨h, m.isShownBy_text⟩

/-- What is read where a marker was written down as the bytes of a JSON text. -/
def reread (m : Marker) : Option Marker := do
  let j ← Json.ofBytes? (Json.string m.text).text.toUTF8
  (Configuration.readMarker j.settingValue).toOption

/-- What is read where a marker was written down and read so many times. -/
def rereadTimes : ℕ → Marker → Option Marker
  | 0, m => some m
  | n + 1, m => m.reread.bind (rereadTimes n)

theorem reread_eq (h : m.IsProper) : m.reread = some m := by
  have bytes : Json.ofBytes? (Json.string m.text).text.toUTF8 = some (.string m.text) :=
    Json.ofBytes?_text rfl
  have read : Configuration.readMarker (Json.string m.text).settingValue = .ok m :=
    bind_eq_ok.mpr ⟨m.text, rfl, mapError_eq_ok.mpr (ofPath_text h)⟩
  rw [reread, bytes, Option.bind_eq_bind, Option.bind_some, read]
  rfl

theorem rereadTimes_eq (h : m.IsProper) (n : ℕ) : rereadTimes n m = some m := by
  induction n with
  | zero => rfl
  | succ n ih =>
    rw [rereadTimes, reread_eq h]
    exact ih

/-- The text of a marker is a normal form. Each marker that can be made is read from its text, also
after it was written down and read any number of times, and from no other marker's text. Each text
that is read as a marker is the text of this marker but for double colons in front and blanks
around, and the marker has a module path. -/
theorem text_isNormal :
    (∀ scope name m, make scope name = .ok m →
      m = ⟨scope, name⟩ ∧ ofPath m.text = .ok m ∧ ∀ n, rereadTimes n m = some m) ∧
    (∀ scope name scope' name' m n, make scope name = .ok m → make scope' name' = .ok n →
      m ≠ n → m.text ≠ n.text) ∧
    ∀ path m, ofPath path = .ok m →
      m.IsShownBy path ∧ ofPath m.text = .ok m ∧ IsModulePath m.scope := by
  refine ⟨?_, ?_, ?_⟩
  · intro scope name m made
    obtain ⟨same, proper⟩ := make_eq_ok.mp made
    exact ⟨same, ofPath_text proper, rereadTimes_eq proper⟩
  · intro scope name scope' name' m n made made' other same
    exact other (eq_of_text_eq made made' same)
  · intro path m read
    obtain ⟨proper, shown⟩ := ofPath_eq_ok_iff.mp read
    exact ⟨shown, ofPath_text proper, isScope_iff.mp proper.2⟩

/-- A text with blanks and double colons around that of a marker in a nested module. -/
theorem text_isNormal_of_blanks :
    make "crate::attrs" "formula" = .ok ⟨"crate::attrs", "formula"⟩ ∧
      make "" "formula" = .ok ⟨"", "formula"⟩ ∧
      ofPath "\t ::::crate::attrs::formula\n" = .ok ⟨"crate::attrs", "formula"⟩ ∧
      rereadTimes 3 ⟨"crate::attrs", "formula"⟩ = some ⟨"crate::attrs", "formula"⟩ ∧
      text ⟨"crate::attrs", "formula"⟩ ≠ text ⟨"", "formula"⟩ ∧ IsModulePath "crate::attrs" := by
  have nested : make "crate::attrs" "formula" = .ok ⟨"crate::attrs", "formula"⟩ := by
    decide +kernel
  have single : make "" "formula" = .ok ⟨"", "formula"⟩ := by decide +kernel
  have read : ofPath "\t ::::crate::attrs::formula\n" = .ok ⟨"crate::attrs", "formula"⟩ := by
    decide +kernel
  obtain ⟨made, apart, shown⟩ := text_isNormal
  refine ⟨nested, single, read, (made _ _ _ nested).2.2 3, ?_, (shown _ _ read).2.2⟩
  exact apart _ _ _ _ _ _ nested single (by decide)

end Marker

end FormulaBinding
