import FormulaBinding.Proofs.Token.Words
import Mathlib.Algebra.Group.Nat.Defs

/-!
# Texts as string literals

Every text is written as a string literal that denotes it, also where a character is written as a
code and where NUL stands in front of a digit. Such a literal is one token, whatever stands behind it
that is no suffix of it.
-/

namespace FormulaBinding

variable {c : Char} {cs rest : List Char} {n value digits : ℕ}

namespace Literal

theorem hexValue?_digitChar : ∀ d < 16, hexValue? (Nat.digitChar d) = some d := by decide

theorem digitChar_ne : ∀ d < 16, Nat.digitChar d ≠ '_' ∧ Nat.digitChar d ≠ '}' := by decide

theorem hexDigits_of_lt (small : n < 16) : hexDigits n = [Nat.digitChar n] :=
  Nat.toDigits_of_lt_base small

theorem hexDigits_of_le (large : 16 ≤ n) :
    hexDigits n = hexDigits (n / 16) ++ [Nat.digitChar (n % 16)] :=
  Nat.toDigits_of_base_le (by decide) large

theorem length_hexDigits_toNat (c : Char) : (hexDigits c.toNat).length ≤ 6 := by
  rw [hexDigits, Nat.length_toDigits_le_iff (by decide) (by decide)]
  have valid : c.toNat.isValidChar := c.valid
  rw [Nat.isValidChar] at valid
  omega

theorem codeOf_digit {d : ℕ} (small : d < 16) :
    codeOf (Nat.digitChar d :: rest) value digits =
      codeOf rest (value * 16 + d) (digits + 1) := by
  simp [codeOf, hexValue?_digitChar d small]

/-- The digits of a number add it to the value in front of them, shifted. -/
theorem codeOf_hexDigits (n : ℕ) (rest : List Char) (value digits : ℕ) :
    codeOf (hexDigits n ++ rest) value digits =
      codeOf rest (value * 16 ^ (hexDigits n).length + n) (digits + (hexDigits n).length) := by
  induction n using Nat.strong_induction_on generalizing rest with
  | _ n ih =>
    rcases Nat.lt_or_ge n 16 with small | large
    · rw [hexDigits_of_lt small, List.singleton_append, codeOf_digit small]
      rfl
    · have last : n % 16 < 16 := Nat.mod_lt n (by decide)
      have sum : (value * 16 ^ (hexDigits (n / 16)).length + n / 16) * 16 + n % 16 =
          value * 16 ^ ((hexDigits (n / 16)).length + 1) + n := by
        rw [Nat.pow_succ, ← Nat.mul_assoc]
        omega
      rw [hexDigits_of_le large, List.append_assoc, ih (n / 16) (by omega), List.singleton_append,
        codeOf_digit last, List.length_append, List.length_singleton, sum, Nat.add_assoc]

theorem codeOf_code (c : Char) (rest : List Char) :
    codeOf (hexDigits c.toNat ++ '}' :: rest) 0 0 = some (c, rest) := by
  have valid : c.toNat.isValidChar := c.valid
  simp [codeOf_hexDigits, codeOf, valid]

theorem readCooked_escape_cons (c : Char) (cs rest : List Char) (fuel : ℕ) :
    readCooked (fuel + 1) (escape (c :: cs) ++ rest) =
      (readCooked fuel (escape cs ++ rest)).map (c :: ·) := by
  rw [escape]
  split_ifs with nul tab carriage line quote backslash showable
  · subst nul
    have denoted (more : List Char) :
        readEscape? ('x' :: '0' :: '0' :: more) = some (['\x00'], more) := rfl
    unfold nulEscape
    split
    · split_ifs
      · simp [readCooked, denoted]
      · simp [readCooked, readEscape?]
    · simp [readCooked, readEscape?]
  · simp [readCooked, readEscape?, tab]
  · simp [readCooked, readEscape?, carriage]
  · simp [readCooked, readEscape?, line]
  · simp [readCooked, readEscape?, quote]
  · simp [readCooked, readEscape?, backslash]
  · simp [readCooked, carriage]
  · simp [codeEscape, readCooked, readEscape?, codeOf_code]

theorem readCooked_escape (cs : List Char) {fuel : ℕ} (enough : cs.length < fuel)
    (rest : List Char) :
    readCooked fuel (escape cs ++ '"' :: rest) = some cs := by
  induction cs generalizing fuel with
  | nil =>
    obtain ⟨fuel, rfl⟩ := Nat.exists_eq_succ_of_ne_zero (Nat.ne_zero_of_lt enough)
    rfl
  | cons c cs ih =>
    obtain ⟨fuel, rfl⟩ := Nat.exists_eq_succ_of_ne_zero (Nat.ne_zero_of_lt enough)
    rw [readCooked_escape_cons, ih (Nat.lt_of_succ_lt_succ enough)]
    rfl

theorem length_le_escape (cs : List Char) : cs.length ≤ (escape cs).length := by
  induction cs with
  | nil => exact Nat.zero_le _
  | cons c cs ih =>
    have some : 1 ≤ (nulEscape cs).length := by
      unfold nulEscape
      split
      · split_ifs <;> decide
      · decide
    rw [escape, List.length_append, List.length_cons]
    split_ifs <;> simp [codeEscape] <;> omega

theorem toList_quote (t : String) : (quote t).toList = '"' :: (escape t.toList ++ ['"']) :=
  String.toList_ofList

/-- A literal that is written denotes its text. -/
theorem stringValue?_quote (t : String) : stringValue? (quote t) = some t := by
  have length := length_le_escape t.toList
  have enough : t.toList.length < (escape t.toList ++ ['"']).length + 1 := by
    rw [List.length_append, List.length_singleton]
    omega
  have read := readCooked_escape t.toList enough []
  rw [stringValue?, toList_quote]
  simp only [read, Option.map_some, String.ofList_toList]

end Literal

namespace Lexer
open Literal Text

theorem codeLength?_digit {d : ℕ} (small : d < 16) (few : digits < 6) :
    codeLength? (Nat.digitChar d :: rest) value digits =
      (codeLength? rest (value * 16 + d) (digits + 1)).map fun (v, k) => (v, k + 1) := by
  obtain ⟨underscore, brace⟩ := digitChar_ne d small
  have room : digits ≠ 6 := by omega
  simp [codeLength?, underscore, brace, hexValue?_digitChar d small, room]

theorem codeLength?_hexDigits (n : ℕ) (rest : List Char) (value digits : ℕ)
    (few : digits + (hexDigits n).length ≤ 6) :
    codeLength? (hexDigits n ++ rest) value digits =
      (codeLength? rest (value * 16 ^ (hexDigits n).length + n)
        (digits + (hexDigits n).length)).map fun (v, k) => (v, k + (hexDigits n).length) := by
  induction n using Nat.strong_induction_on generalizing rest with
  | _ n ih =>
    rcases Nat.lt_or_ge n 16 with small | large
    · rw [hexDigits_of_lt small] at few ⊢
      rw [List.singleton_append, codeLength?_digit small (Nat.lt_of_succ_le few)]
      rfl
    · have last : n % 16 < 16 := Nat.mod_lt n (by decide)
      have sum : (value * 16 ^ (hexDigits (n / 16)).length + n / 16) * 16 + n % 16 =
          value * 16 ^ ((hexDigits (n / 16)).length + 1) + n := by
        rw [Nat.pow_succ, ← Nat.mul_assoc]
        omega
      rw [hexDigits_of_le large, List.length_append, List.length_singleton] at few ⊢
      rw [List.append_assoc, ih (n / 16) (by omega) _ (by omega), List.singleton_append,
        codeLength?_digit last (by omega), sum, Option.map_map, Nat.add_assoc]
      refine congrArg (Option.map · _) (funext fun (v, k) => ?_)
      simp only [Function.comp, Nat.add_assoc, Nat.add_comm 1]

theorem codeLength?_code (c : Char) (rest : List Char) :
    codeLength? (hexDigits c.toNat ++ '}' :: rest) 0 0 =
      some (c.toNat, (hexDigits c.toNat).length + 1) := by
  have valid : c.toNat.isValidChar := c.valid
  have some : 0 < (hexDigits c.toNat).length := by
    rcases Nat.lt_or_ge c.toNat 16 with small | large
    · simp [hexDigits_of_lt small]
    · simp [hexDigits_of_le large]
  rw [codeLength?_hexDigits _ _ _ _ (by have := length_hexDigits_toNat c; omega)]
  simp [codeLength?, valid, some, Nat.add_comm 1]

theorem quotedLength?_escape (cs rest : List Char) :
    quotedLength? .text (escape cs ++ '"' :: rest) = some ((escape cs).length + 1) := by
  induction cs with
  | nil => simp [escape, quotedLength?]
  | cons c cs ih =>
    have zero : hexValue? '0' = some 0 := by decide
    rw [escape]
    split_ifs with nul tab carriage line quote backslash showable
    · unfold nulEscape
      split
      · split_ifs
        · simp [quotedLength?, escapeLength?, twoDigits, isHex, zero, ih]
        · simp [quotedLength?, escapeLength?, ih]
      · simp [quotedLength?, escapeLength?, ih]
    · simp [quotedLength?, escapeLength?, ih]
    · simp [quotedLength?, escapeLength?, ih]
    · simp [quotedLength?, escapeLength?, ih]
    · simp [quotedLength?, escapeLength?, ih]
    · simp [quotedLength?, escapeLength?, ih]
    · simp [quotedLength?, carriage, isPlain, ih]
    · simp [codeEscape, quotedLength?, escapeLength?, codeLength?_code, ih]
      omega

def EndsLiteral (rest : List Char) : Prop := ∀ x, rest.head? = some x → isNameStart x = false

theorem plainNameLength_of_endsLiteral (ends : EndsLiteral rest) : plainNameLength rest = 0 := by
  cases rest with
  | nil => rfl
  | cons x more => rw [plainNameLength, ends x rfl, if_neg Bool.false_ne_true]

theorem literalLength?_quote (t : String) (ends : EndsLiteral rest) :
    literalLength? ((quote t).toList ++ rest) = some (quote t).toList.length := by
  have behind : ((quote t).toList ++ rest).drop (quote t).toList.length = rest := List.drop_left
  rw [toList_quote] at behind ⊢
  rw [List.cons_append, List.append_assoc, List.singleton_append] at behind ⊢
  have length : 1 + ((escape t.toList).length + 1) =
      ('"' :: (escape t.toList ++ ['"'])).length := by
    rw [List.length_cons, List.length_append, List.length_singleton]
    omega
  rw [literalLength?, quotedLength?_escape, Option.map_some, closeLiteral, length, behind,
    plainNameLength_of_endsLiteral ends, Nat.add_zero]

/-- A literal that is written is read as one token where no suffix follows it. -/
theorem run_quote_append (t : String) (ends : EndsLiteral rest) (p : Position)
    (frames : List Frame) (done : List Token) :
    run ((quote t).toList ++ rest) p frames done =
      run rest (p.advance (quote t).toList) frames
        (.literal (quote t) (Extent.covering p (quote t).toList) :: done) := by
  have literal := literalLength?_quote t ends
  have taken : ((quote t).toList ++ rest).take (quote t).toList.length = (quote t).toList :=
    List.take_left
  have leaf : leaf? ((quote t).toList ++ rest) p =
      some (.literal (quote t) (Extent.covering p (quote t).toList), (quote t).toList.length) := by
    unfold leaf?
    simp only [literal, taken, String.ofList_toList]
  rw [toList_quote, List.cons_append] at leaf ⊢
  have space : spaceLength ('"' :: (escape t.toList ++ ['"'] ++ rest)) = 0 :=
    spaceLength_of_ne (by decide) (by decide)
  have doc : doc? ('"' :: (escape t.toList ++ ['"'] ++ rest)) = none := doc?_of_ne (by decide)
  have opening : opening? ('"' :: (escape t.toList ++ ['"'] ++ rest)) = none := rfl
  have closing : Delimiter.ofClosing? '"' = none := by decide
  rw [run]
  simp only [space, doc, opening, closing, leaf, List.length_cons]
  rw [List.drop_left, List.take_left]

/-- A literal that is written has itself as its only token. -/
theorem tokens?_quote (t : String) : tokens? (quote t).toList =
    some [.literal (quote t) (Extent.covering Position.start (quote t).toList)] := by
  have ends : EndsLiteral [] := nofun
  have single := run_quote_append t ends Position.start [] []
  rw [List.append_nil] at single
  rw [toList_quote] at single ⊢
  rw [tokens?, if_neg (by decide), single]
  unfold run
  rfl

end Lexer
end FormulaBinding
