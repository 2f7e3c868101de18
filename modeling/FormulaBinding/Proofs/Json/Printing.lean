import FormulaBinding.Json.Reader
import FormulaBinding.Proofs.Token.Quoting
import Mathlib.Data.Nat.Notation
import Mathlib.Tactic.SplitIfs

/-!
# What is written as JSON is read back

A value made of truth values, strings, arrays and objects is determined by its compact text, also
when other characters follow the text. The reader stops exactly where the text ends, which is the
form of the statement that the induction over values needs.
-/

namespace FormulaBinding.Json

def glyphs (cs : List Char) : List Glyph := cs.map some

@[simp] theorem glyphs_nil : glyphs [] = [] := rfl

@[simp] theorem glyphs_cons (c : Char) (cs : List Char) :
    glyphs (c :: cs) = some c :: glyphs cs := rfl

@[simp] theorem glyphs_append (cs ds : List Char) :
    glyphs (cs ++ ds) = glyphs cs ++ glyphs ds := List.map_append

@[simp] theorem length_glyphs (cs : List Char) : (glyphs cs).length = cs.length :=
  List.length_map _

@[simp] theorem text?_glyphs (cs : List Char) :
    Glyph.text? (glyphs cs) = some (String.ofList cs) := by
  have h : (glyphs cs).mapM id = some cs := by
    induction cs with
    | nil => rfl
    | cons c cs ih => simp [ih]
  simp [Glyph.text?, h]

mutual

/-- Whether a value holds neither a number, of which only the text is known, nor a garbled value,
which has no text. -/
def isPlain : Json → Bool
  | null => true
  | bool _ => true
  | number _ => false
  | string _ => true
  | array js => arePlain js
  | object fs => arePlainFields fs
  | garbled => false

def arePlain : List Json → Bool
  | [] => true
  | j :: js => isPlain j && arePlain js

def arePlainFields : List (String × Json) → Bool
  | [] => true
  | (_, j) :: fs => isPlain j && arePlainFields fs

end

theorem arePlain_iff (js : List Json) : arePlain js = true ↔ ∀ j ∈ js, isPlain j = true := by
  induction js with
  | nil => simp [arePlain]
  | cons j js ih => simp [arePlain, ih]

theorem arePlainFields_iff (fs : List (String × Json)) :
    arePlainFields fs = true ↔ ∀ f ∈ fs, isPlain f.2 = true := by
  induction fs with
  | nil => simp [arePlainFields]
  | cons f fs ih => simp [arePlainFields, ih]

private theorem hexValue?_zero : Literal.hexValue? '0' = some 0 := by decide

private theorem codeEscape?_control {c : Char} (hc : c.toNat < 32) (rest : List Glyph) :
    codeEscape? (some '0' :: some '0' :: (glyphs (controlDigits c.toNat) ++ rest)) =
      some (some c, rest) := by
  have high : Literal.hexValue? (Nat.digitChar (c.toNat / 16)) = some (c.toNat / 16) :=
    Literal.hexValue?_digitChar _ (by omega)
  have low : Literal.hexValue? (Nat.digitChar (c.toNat % 16)) = some (c.toNat % 16) :=
    Literal.hexValue?_digitChar _ (by omega)
  have value : ((0 * 16 + 0) * 16 + c.toNat / 16) * 16 + c.toNat % 16 = c.toNat := by omega
  have plain : isHigh c.toNat = false ∧ isLow c.toNat = false := by
    simp [isHigh, isLow]
    omega
  simp only [controlDigits, glyphs_cons, glyphs_nil, List.cons_append, List.nil_append,
    codeEscape?, fourDigits?, hexValue?_zero, high, low, value, plain]
  simp

/-- One character of a string is read back, whatever follows it. -/
private theorem readString?_escapeChar (c : Char) (n : ℕ) (rest : List Glyph) :
    readString? (n + 1) (glyphs (escapeChar c) ++ rest) =
      (readString? n rest).map fun (s, rest) => (some c :: s, rest) := by
  unfold escapeChar
  split_ifs with quote backslash backspace feed line carriage tab control
  · subst quote
    simp [readString?, readEscape?]
  · subst backslash
    simp [readString?, readEscape?]
  · subst backspace
    simp [readString?, readEscape?]
  · subst feed
    simp [readString?, readEscape?]
  · subst line
    simp [readString?, readEscape?]
  · subst carriage
    simp [readString?, readEscape?]
  · subst tab
    simp [readString?, readEscape?]
  · simp [readString?, readEscape?, codeEscape?_control control]
  · simp [readString?, quote, backslash, control]

theorem readString?_escaped (cs : List Char) {n : ℕ} (hn : cs.length < n) (rest : List Glyph) :
    readString? n (glyphs (cs.flatMap escapeChar) ++ some '"' :: rest) =
      some (glyphs cs, rest) := by
  induction cs generalizing n with
  | nil =>
    cases n with
    | zero => simp at hn
    | succ n => simp [readString?]
  | cons c cs ih =>
    cases n with
    | zero => simp at hn
    | succ n =>
      have hcs : cs.length < n := by simpa using hn
      rw [List.flatMap_cons, glyphs_append, List.append_assoc, readString?_escapeChar, ih hcs]
      simp

private theorem length_le_escaped (cs : List Char) :
    cs.length ≤ (cs.flatMap escapeChar).length := by
  induction cs with
  | nil => simp
  | cons c cs ih =>
    have hc : 1 ≤ (escapeChar c).length := by
      unfold escapeChar
      split_ifs <;> simp
    simp only [List.flatMap_cons, List.length_append, List.length_cons]
    omega

/-- A string is read back after its opening quote, with the fuel that the reader gives itself. -/
theorem readString?_quoted (s : String) (rest : List Glyph) :
    readString? ((glyphs (s.toList.flatMap escapeChar) ++ some '"' :: rest).length + 1)
        (glyphs (s.toList.flatMap escapeChar) ++ some '"' :: rest) =
      some (glyphs s.toList, rest) := by
  apply readString?_escaped
  have h := length_le_escaped s.toList
  simp only [List.length_append, length_glyphs, List.length_cons]
  omega

/-- The characters with which the text of a plain value may start. -/
def starts : List Char := ['n', 't', 'f', '"', '[', '{']

private theorem print_eq_cons {j : Json} (hj : j.isPlain = true) :
    ∃ c cs, print j = c :: cs ∧ c ∈ starts := by
  cases j with
  | null => exact ⟨'n', ['u', 'l', 'l'], rfl, by decide⟩
  | bool b =>
    cases b with
    | true => exact ⟨'t', ['r', 'u', 'e'], rfl, by decide⟩
    | false => exact ⟨'f', ['a', 'l', 's', 'e'], rfl, by decide⟩
  | number t => simp [isPlain] at hj
  | string s => exact ⟨'"', _, rfl, by decide⟩
  | array js => exact ⟨'[', _, by rw [print], by decide⟩
  | object fs => exact ⟨'{', _, by rw [print], by decide⟩
  | garbled => simp [isPlain] at hj

/-- No blank is skipped in front of a plain value. -/
private theorem dropBlank_start {c : Char} (hc : c ∈ starts) (gs : List Glyph) :
    dropBlank (some c :: gs) = some c :: gs := by
  rw [dropBlank, List.dropWhile_cons_of_neg]
  revert hc
  simp only [starts, List.mem_cons, List.not_mem_nil, or_false]
  rintro (rfl | rfl | rfl | rfl | rfl | rfl) <;> decide

/-- The fields of an object with their keys as glyphs. -/
def glyphFields (fs : List (String × Json)) : List (List Glyph × Json) :=
  fs.map fun f => (glyphs f.1.toList, f.2)

private theorem ofFields_glyphFields (fs : List (String × Json)) :
    ofFields (glyphFields fs) = .object fs := by
  have h : (glyphFields fs).mapM (fun f => (Glyph.text? f.1).map (·, f.2)) = some fs := by
    induction fs with
    | nil => rfl
    | cons f fs ih =>
      rw [glyphFields] at ih ⊢
      simp [ih]
  simp [ofFields, h]

private theorem printFields_eq_cons (f : String × Json) (fs : List (String × Json)) :
    ∃ cs, printFields (f :: fs) = '"' :: cs := by
  cases fs with
  | nil => exact ⟨_, by rw [printFields, quote, List.cons_append]⟩
  | cons g fs => exact ⟨_, by rw [printFields, quote, List.cons_append]; simp⟩

private theorem printElements_eq_cons {j : Json} (hj : j.isPlain = true) (js : List Json) :
    ∃ c cs, printElements (j :: js) = c :: cs ∧ c ∈ starts := by
  obtain ⟨c, cs, hp, hc⟩ := print_eq_cons hj
  cases js with
  | nil => exact ⟨c, cs, by rw [printElements, hp], hc⟩
  | cons k js => exact ⟨c, _, by rw [printElements, hp, List.cons_append]; simp, hc⟩

private theorem dropBlank_mark {c : Char} (hc : c = ',' ∨ c = ':' ∨ c = ']' ∨ c = '}')
    (gs : List Glyph) : dropBlank (some c :: gs) = some c :: gs := by
  rw [dropBlank, List.dropWhile_cons_of_neg]
  rcases hc with rfl | rfl | rfl | rfl <;> decide

mutual

/-- A plain value is read back, with fuel for two steps per character. -/
theorem readValue?_print (j : Json) (hj : j.isPlain = true) {n : ℕ}
    (hn : 2 * (print j).length ≤ n) (rest : List Glyph) :
    readValue? n (glyphs (print j) ++ rest) = some (j, rest) := by
  obtain ⟨c, cs, hp, hc⟩ := print_eq_cons hj
  cases n with
  | zero => simp [hp] at hn
  | succ n =>
    have skip : dropBlank (glyphs (print j) ++ rest) = glyphs (print j) ++ rest := by
      rw [hp, glyphs_cons, List.cons_append, dropBlank_start hc]
    rw [readValue?, skip]
    match j, hj, hn with
    | .null, _, _ => rfl
    | .bool true, _, _ => rfl
    | .bool false, _, _ => rfl
    | .string s, _, _ =>
      simp only [print, quote, glyphs_cons, glyphs_append, glyphs_nil, List.cons_append,
        List.append_assoc, List.nil_append]
      rw [readString?_quoted]
      simp [ofGlyphs]
    | .array [], _, _ => rfl
    | .array (k :: js), hj, hn =>
      rw [isPlain] at hj
      simp only [print, List.length_cons, List.length_append, List.length_nil] at hn
      have read := readElements?_print (k :: js) hj (by simp) (n := n) (by omega) rest
      have hk : k.isPlain = true := by simp_all [arePlain]
      obtain ⟨c, cs, hp, hc⟩ := printElements_eq_cons hk js
      have open' : c ≠ ']' := by rintro rfl; revert hc; decide
      simp only [print, glyphs_cons, glyphs_append, glyphs_nil, List.cons_append,
        List.append_assoc, List.nil_append]
      rw [hp, glyphs_cons, List.cons_append] at read ⊢
      simp [dropBlank_start hc, open', read]
    | .object [], _, _ => rfl
    | .object (f :: fs), hj, hn =>
      rw [isPlain] at hj
      simp only [print, List.length_cons, List.length_append, List.length_nil] at hn
      have read := readFields?_print (f :: fs) hj (by simp) (n := n) (by omega) rest
      obtain ⟨cs, hp⟩ := printFields_eq_cons f fs
      simp only [print, glyphs_cons, glyphs_append, glyphs_nil, List.cons_append,
        List.append_assoc, List.nil_append]
      rw [hp, glyphs_cons, List.cons_append] at read ⊢
      simp [dropBlank_start (c := '"') (by decide), read, ofFields_glyphFields]

/-- Plain elements are read back up to the bracket after them. -/
theorem readElements?_print (js : List Json) (hj : arePlain js = true) (hjs : js ≠ []) {n : ℕ}
    (hn : 2 * (printElements js).length + 1 ≤ n) (rest : List Glyph) :
    readElements? n (glyphs (printElements js) ++ some ']' :: rest) = some (js, rest) := by
  cases n with
  | zero => simp at hn
  | succ n =>
    rw [readElements?]
    match js, hj, hn with
    | [], _, _ => exact absurd rfl hjs
    | [j], hj, hn =>
      have hj : j.isPlain = true := by simpa [arePlain] using hj
      rw [printElements] at hn ⊢
      rw [readValue?_print j hj (by omega)]
      simp [dropBlank_mark]
    | j :: k :: js, hj, hn =>
      obtain ⟨hj, hk⟩ : j.isPlain = true ∧ arePlain (k :: js) = true := by
        simpa [arePlain] using hj
      have text : printElements (j :: k :: js) = print j ++ ',' :: printElements (k :: js) := by
        rw [printElements]
        simp
      rw [text] at hn ⊢
      simp only [List.length_append, List.length_cons] at hn
      rw [glyphs_append, List.append_assoc, readValue?_print j hj (by omega)]
      simp [dropBlank_mark, readElements?_print (k :: js) hk (by simp) (n := n) (by omega)]

/-- Plain fields are read back up to the brace after them. -/
theorem readFields?_print (fs : List (String × Json)) (hf : arePlainFields fs = true)
    (hfs : fs ≠ []) {n : ℕ} (hn : 2 * (printFields fs).length + 1 ≤ n) (rest : List Glyph) :
    readFields? n (glyphs (printFields fs) ++ some '}' :: rest) =
      some (glyphFields fs, rest) := by
  cases n with
  | zero => simp at hn
  | succ n =>
    rw [readFields?]
    match fs, hf, hn with
    | [], _, _ => exact absurd rfl hfs
    | [(k, j)], hf, hn =>
      have hj : j.isPlain = true := by simpa [arePlainFields] using hf
      simp only [printFields, quote, List.cons_append, List.length_append, List.length_cons] at hn
      simp only [printFields, quote, glyphs_cons, glyphs_append, List.cons_append,
        List.append_assoc, List.nil_append]
      rw [dropBlank_start (by decide)]
      simp only
      rw [readString?_quoted]
      simp [dropBlank_mark, readValue?_print j hj (n := n) (by omega), glyphFields]
    | (k, j) :: f :: fs, hf, hn =>
      obtain ⟨hj, hf⟩ : j.isPlain = true ∧ arePlainFields (f :: fs) = true := by
        simpa [arePlainFields] using hf
      simp only [printFields, quote, List.cons_append, List.length_append, List.length_cons] at hn
      simp only [printFields, quote, glyphs_cons, glyphs_append, List.cons_append,
        List.append_assoc, List.nil_append]
      rw [dropBlank_start (by decide)]
      simp only
      rw [readString?_quoted]
      have read := readFields?_print (f :: fs) hf (by simp) (n := n) (by omega) rest
      simp [dropBlank_mark, readValue?_print j hj (n := n) (by omega), read, glyphFields]

end

theorem read?_print {j : Json} (hj : j.isPlain = true) : read? (glyphs (print j)) = some j := by
  have read := readValue?_print j hj (n := 2 * (glyphs (print j)).length + 2) (by simp) []
  rw [List.append_nil] at read
  rw [read?, read]
  rfl

theorem fromUTF8?_toUTF8 (s : String) : String.fromUTF8? s.toUTF8 = some s := by
  have valid : s.toUTF8.IsValidUTF8 := s.isValidUTF8
  rw [String.fromUTF8?, dif_pos valid]
  rfl

/-- A plain value is read back from the bytes of its text. -/
theorem ofBytes?_text {j : Json} (hj : j.isPlain = true) :
    ofBytes? j.text.toUTF8 = some j := by
  have bytes : Glyph.ofBytes j.text.toUTF8 = glyphs (print j) := by
    rw [Glyph.ofBytes, fromUTF8?_toUTF8]
    simp [Glyph.ofText, text, glyphs]
  rw [ofBytes?, bytes, read?_print hj]

/-- The text of a plain value determines the value, also if the same text follows both. -/
theorem text_append_injective {j k : Json} (hj : j.isPlain = true) (hk : k.isPlain = true)
    {s : String} (h : j.text ++ s = k.text ++ s) : j = k := by
  have text : print j = print k := by
    simpa [Json.text, ← String.toList_inj] using h
  have read := readValue?_print j hj (n := 2 * (print j).length) (by simp) []
  rw [text, readValue?_print k hk (by simp)] at read
  simpa using read.symm

end FormulaBinding.Json
