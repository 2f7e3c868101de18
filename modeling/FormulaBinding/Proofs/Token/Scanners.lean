import FormulaBinding.Proofs.Token.Words

/-!
# Scanners in front of a colon

What a scanner finds at the start of a text does not depend on a colon and what comes behind it, as
long as nothing there can end what is open in front of it. Only a mark is joined to the colon.
-/

namespace FormulaBinding.Lexer
open Text

/-- The characters that end a literal, a comment, a line or a group. -/
def enders : List Char := ['"', '\'', '/', '\n', '\r', ')', ']', '\x7d']

/-- Whether a text starts with a colon and has no character that ends something. -/
structure IsAppendix (t : List Char) : Prop where
  colon : ∃ more, t = ':' :: more
  free : ∀ x ∈ enders, x ∉ t

variable {t cs : List Char} {n : Nat}

/-! ## Beginnings -/

theorem takeWhile_append_cons {f : Char → Bool} {x : Char} (stops : f x = false)
    (cs more : List Char) : (cs ++ x :: more).takeWhile f = cs.takeWhile f := by
  induction cs with
  | nil => exact List.takeWhile_cons_of_neg (by rw [stops]; exact Bool.false_ne_true)
  | cons c cs ih =>
    rw [List.cons_append, List.takeWhile_cons, List.takeWhile_cons, ih]

theorem any_head?_append_cons {f : Char → Bool} {x : Char} (stops : f x = false)
    (cs more : List Char) : (cs ++ x :: more).head?.any f = cs.head?.any f := by
  cases cs with
  | nil => exact stops
  | cons c cs => rfl

theorem isPrefixOf_append_cons {s : List Char} {x : Char} (free : x ∉ s) (cs more : List Char) :
    s.isPrefixOf (cs ++ x :: more) = s.isPrefixOf cs := by
  induction s generalizing cs with
  | nil => simp
  | cons y s ih =>
    rw [List.mem_cons, not_or] at free
    cases cs with
    | nil =>
      have other : (y == x) = false := by simpa using Ne.symm free.1
      simp [List.isPrefixOf, other]
    | cons c cs => simp only [List.cons_append, List.isPrefixOf, ih free.2]

theorem IsAppendix.takeWhile_append (h : IsAppendix t) {f : Char → Bool} (stops : f ':' = false)
    (cs : List Char) : (cs ++ t).takeWhile f = cs.takeWhile f := by
  obtain ⟨more, rfl⟩ := h.colon
  exact takeWhile_append_cons stops cs more

/-- What starts with another character than a colon starts within the text in front. -/
theorem IsAppendix.exists_of_append_eq (h : IsAppendix t) {x : Char} {rest : List Char}
    (other : x ≠ ':') (same : cs ++ t = x :: rest) : ∃ more, cs = x :: more ∧ rest = more ++ t := by
  obtain ⟨tail, rfl⟩ := h.colon
  cases cs with
  | nil => exact absurd (List.cons.inj same).1.symm other
  | cons c cs =>
    obtain ⟨rfl, rfl⟩ := List.cons.inj same
    exact ⟨cs, rfl, rfl⟩

theorem IsAppendix.isPrefixOf_append (h : IsAppendix t) {s : List Char} (free : ':' ∉ s)
    (cs : List Char) : s.isPrefixOf (cs ++ t) = s.isPrefixOf cs := by
  obtain ⟨more, rfl⟩ := h.colon
  exact isPrefixOf_append_cons free cs more

/-- The characters that neither a name nor a number goes on with. -/
def breaks : List Char := [':', ' ', '\n', ')', ']', '\x7d', ',', ';', '>']

/-- Whether a text starts with a character that neither a name nor a number goes on with. -/
def Breaks (t : List Char) : Prop := ∃ x more, t = x :: more ∧ x ∈ breaks

theorem IsAppendix.breaks (h : IsAppendix t) : Breaks t := by
  obtain ⟨more, rfl⟩ := h.colon
  exact ⟨':', more, rfl, by decide⟩

theorem Breaks.takeWhile_append (h : Breaks t) {f : Char → Bool}
    (stops : ∀ x ∈ Lexer.breaks, f x = false) (cs : List Char) :
    (cs ++ t).takeWhile f = cs.takeWhile f := by
  obtain ⟨x, more, rfl, mem⟩ := h
  exact takeWhile_append_cons (stops x mem) cs more

theorem Breaks.any_head?_append (h : Breaks t) {f : Char → Bool}
    (stops : ∀ x ∈ Lexer.breaks, f x = false) (cs : List Char) :
    (cs ++ t).head?.any f = cs.head?.any f := by
  obtain ⟨x, more, rfl, mem⟩ := h
  exact any_head?_append_cons (stops x mem) cs more

theorem Breaks.isPrefixOf_append (h : Breaks t) {s : List Char} (free : ∀ x ∈ Lexer.breaks, x ∉ s)
    (cs : List Char) : s.isPrefixOf (cs ++ t) = s.isPrefixOf cs := by
  obtain ⟨x, more, rfl, mem⟩ := h
  exact isPrefixOf_append_cons (free x mem) cs more

/-! ## Names -/

theorem Breaks.plainNameLength_append (h : Breaks t) (cs : List Char) :
    plainNameLength (cs ++ t) = plainNameLength cs := by
  cases cs with
  | nil =>
    obtain ⟨x, more, rfl, mem⟩ := h
    have start : ∀ x ∈ breaks, isNameStart x = false := by decide
    rw [List.nil_append, plainNameLength.eq_2, start x mem]
    rfl
  | cons c cs =>
    rw [List.cons_append, plainNameLength, plainNameLength, h.takeWhile_append (by decide)]

theorem plainNameLength_le (cs : List Char) : plainNameLength cs ≤ cs.length := by
  cases cs with
  | nil => exact Nat.le_refl _
  | cons c cs =>
    rw [plainNameLength]
    split_ifs
    · exact Nat.succ_le_succ (List.takeWhile_sublist _).length_le
    · exact Nat.zero_le _

theorem Breaks.plainNameLength_drop_append (h : Breaks t) (within : n ≤ cs.length) :
    plainNameLength ((cs ++ t).drop n) = plainNameLength (cs.drop n) := by
  rw [List.drop_append_of_le_length within, h.plainNameLength_append]

theorem exists_of_isPrefixOf {start cs : List Char} (h : start.isPrefixOf cs = true) :
    ∃ rest, cs = start ++ rest := by
  obtain ⟨rest, same⟩ := List.isPrefixOf_iff_prefix.mp h
  exact ⟨rest, same.symm⟩

theorem anyNameLength?_of_plain (h : ['r', '#'].isPrefixOf cs = false) : anyNameLength? cs =
    if plainNameLength cs = 0 then none else some (plainNameLength cs) := by
  unfold anyNameLength?
  split
  · cases h
  · rfl

theorem IsAppendix.anyNameLength?_append (h : IsAppendix t) (cs : List Char) :
    anyNameLength? (cs ++ t) = anyNameLength? cs := by
  have same := h.isPrefixOf_append (s := ['r', '#']) (by decide) cs
  cases raw : ['r', '#'].isPrefixOf cs with
  | false =>
    rw [anyNameLength?_of_plain raw, anyNameLength?_of_plain (same.trans raw),
      h.breaks.plainNameLength_append]
  | true =>
    obtain ⟨rest, rfl⟩ := exists_of_isPrefixOf raw
    have plain := h.breaks.plainNameLength_append rest
    have whole : (rest ++ t).take (plainNameLength rest) = rest.take (plainNameLength rest) :=
      List.take_append_of_le_length (plainNameLength_le rest)
    simp only [List.cons_append, List.nil_append, anyNameLength?, plain, whole]

theorem anyNameLength?_le (h : anyNameLength? cs = some n) : n ≤ cs.length := by
  unfold anyNameLength? at h
  split at h
  · rename_i rest
    have within := plainNameLength_le rest
    dsimp only at h
    split_ifs at h
    cases h
    simp only [List.length_cons]
    omega
  · have within := plainNameLength_le cs
    dsimp only at h
    split_ifs at h
    cases h
    exact within

theorem nameLength?_le (h : nameLength? cs = some n) : n ≤ cs.length := by
  rw [nameLength?] at h
  split_ifs at h
  exact anyNameLength?_le h

theorem IsAppendix.nameLength?_append (h : IsAppendix t) (cs : List Char) :
    nameLength? (cs ++ t) = nameLength? cs := by
  have free : ∀ start ∈ literalStarts, ':' ∉ start := by decide
  have starts : (literalStarts.any fun start => start.isPrefixOf (cs ++ t)) =
      literalStarts.any fun start => start.isPrefixOf cs := by
    rw [Bool.eq_iff_iff, List.any_eq_true, List.any_eq_true]
    refine exists_congr fun start => and_congr_right fun mem => ?_
    rw [h.isPrefixOf_append (free start mem)]
  rw [nameLength?, nameLength?, starts, h.anyNameLength?_append]

/-! ## Escapes -/

theorem IsAppendix.codeLength?_append (h : IsAppendix t) (cs : List Char) (value digits : Nat) :
    codeLength? (cs ++ t) value digits = codeLength? cs value digits := by
  induction cs generalizing value digits with
  | nil =>
    obtain ⟨more, rfl⟩ := h.colon
    rfl
  | cons c cs ih => simp only [List.cons_append, codeLength?, ih]

/-- Whether a length of what starts a text of `k` characters stays the same where something is
appended, or comes to reach at least to the end of the text. -/
def SameOrBeyond (k : Nat) (before after : Option Nat) : Prop :=
  after = before ∨ before = none ∧ ∃ n, k ≤ n ∧ after = some n

theorem SameOrBeyond.map {k : Nat} {before after : Option Nat} (h : SameOrBeyond k before after) :
    SameOrBeyond (k + 1) (before.map (· + 1)) (after.map (· + 1)) := by
  obtain rfl | ⟨rfl, n, long, rfl⟩ := h
  · exact .inl rfl
  · exact .inr ⟨rfl, n + 1, Nat.succ_le_succ long, rfl⟩

/-- Blanks that reach to the end of a text go on in what is appended. -/
theorem IsAppendix.continuationLength?_append (h : IsAppendix t) (cs : List Char)
    (afterReturn : Bool) :
    SameOrBeyond cs.length (continuationLength? cs afterReturn)
      (continuationLength? (cs ++ t) afterReturn) := by
  induction cs generalizing afterReturn with
  | nil =>
    obtain ⟨more, rfl⟩ := h.colon
    cases afterReturn with
    | true => exact .inl rfl
    | false => exact .inr ⟨rfl, 0, Nat.le_refl _, rfl⟩
  | cons c cs ih =>
    rw [List.cons_append, continuationLength?, continuationLength?, List.length_cons]
    split_ifs
    · exact (ih false).map
    · exact .inl rfl
    · exact (ih false).map
    · exact (ih true).map
    · exact .inl rfl

theorem twoDigits_colon_left (kind : Quoted) (c : Char) : twoDigits kind ':' c = false := by
  have hex : isHex ':' = false := by decide
  cases kind <;> simp [twoDigits, hex]

theorem twoDigits_colon_right (kind : Quoted) (c : Char) : twoDigits kind c ':' = false := by
  have hex : isHex ':' = false := by decide
  cases kind <;> simp [twoDigits, hex]

theorem escapeLength?_of_notMem {c : Char} (h : c ∉ ['x', 'u', '\n', '\r']) (kind : Quoted)
    (xs ys : List Char) : escapeLength? kind (c :: xs) = escapeLength? kind (c :: ys) := by
  simp only [List.mem_cons, List.not_mem_nil, or_false, not_or] at h
  obtain ⟨x, u, feed, back⟩ := h
  unfold escapeLength?
  split <;> simp_all

/-- An escape stays the same in front of what is appended; only blanks may go on in it. -/
theorem IsAppendix.escapeLength?_append (h : IsAppendix t) (kind : Quoted) (cs : List Char) :
    SameOrBeyond cs.length (escapeLength? kind cs) (escapeLength? kind (cs ++ t)) := by
  obtain ⟨more, same⟩ := h.colon
  rcases cs with _ | ⟨c, cs⟩
  · subst same
    exact .inl rfl
  · by_cases special : c ∈ ['x', 'u', '\n', '\r']
    · simp only [List.mem_cons, List.not_mem_nil, or_false] at special
      rcases special with rfl | rfl | rfl | rfl
      · refine .inl ?_
        rcases cs with _ | ⟨a, _ | ⟨b, cs⟩⟩
        · rw [same]
          cases more with
          | nil => rfl
          | cons y more => simp [escapeLength?, twoDigits_colon_left]
        · rw [same]
          simp [escapeLength?, twoDigits_colon_right]
        · rfl
      · refine .inl ?_
        rcases cs with _ | ⟨d, cs⟩
        · rw [same]
          rfl
        · by_cases brace : d = '\x7b'
          · subst brace
            simp only [List.cons_append, escapeLength?, h.codeLength?_append]
          · simp [escapeLength?, brace]
      · exact (h.continuationLength?_append cs false).map
      · exact (h.continuationLength?_append cs true).map
    · exact .inl (escapeLength?_of_notMem special kind _ _)

theorem continuationLength?_le {afterReturn : Bool}
    (h : continuationLength? cs afterReturn = some n) : n ≤ cs.length := by
  fun_induction continuationLength? cs afterReturn generalizing n with
    grind [Option.map_eq_some_iff]

theorem codeLength?_le {value digits v : Nat} (h : codeLength? cs value digits = some (v, n)) :
    n ≤ cs.length := by
  fun_induction codeLength? cs value digits generalizing n v with grind [Option.map_eq_some_iff]

theorem escapeLength?_le {kind : Quoted} (h : escapeLength? kind cs = some n) : n ≤ cs.length := by
  unfold escapeLength? at h
  split at h <;> grind [Option.map_eq_some_iff, → continuationLength?_le, → codeLength?_le]

/-! ## Quoted literals -/

theorem quotedLength?_of_notMem {kind : Quoted} (free : '"' ∉ cs) :
    quotedLength? kind cs = none := by
  fun_induction quotedLength? kind cs
  case case5 ih =>
    rw [ih fun mem => free (List.mem_cons_of_mem _ (List.mem_of_mem_drop mem))]
    rfl
  all_goals simp_all

theorem quotedLength?_le {kind : Quoted} (h : quotedLength? kind cs = some n) : n ≤ cs.length := by
  fun_induction quotedLength? kind cs generalizing n <;>
    grind [Option.map_eq_some_iff, → escapeLength?_le]

theorem IsAppendix.quotedLength?_append (h : IsAppendix t) (kind : Quoted) (cs : List Char) :
    quotedLength? kind (cs ++ t) = quotedLength? kind cs := by
  have unclosed {k : Nat} : quotedLength? kind (t.drop k) = none :=
    quotedLength?_of_notMem fun mem => h.free '"' (by decide) (List.mem_of_mem_drop mem)
  fun_induction quotedLength? kind cs
  case case1 => exact unclosed (k := 0)
  case case2 => rw [List.cons_append, quotedLength?]
  case case3 ih => rw [List.cons_append, List.cons_append, quotedLength?, ih]
  case case4 cs other =>
    rw [List.cons_append, quotedLength?]
    intro more same
    obtain ⟨rest, rfl, -⟩ := h.exists_of_append_eq (by decide) same
    exact other rest rfl
  case case5 cs n escape ih =>
    have same := (h.escapeLength?_append kind cs).resolve_right fun none =>
      Option.some_ne_none n (escape.symm.trans none.1)
    rw [List.cons_append, quotedLength?, same, escape]
    dsimp only
    rw [List.drop_append_of_le_length (escapeLength?_le escape), ih]
  case case6 cs escape =>
    rw [List.cons_append, quotedLength?]
    obtain same | ⟨-, n, long, same⟩ := h.escapeLength?_append kind cs
    · rw [same, escape]
    · rw [same]
      dsimp only
      rw [List.drop_append, List.drop_eq_nil_of_le long, List.nil_append, unclosed]
      rfl
  case case7 quote _ back slash plain ih =>
    rw [List.cons_append, quotedLength?, if_pos plain, ih]
    exacts [quote, fun _ same _ => back same, back, slash]
  case case8 quote _ back slash plain =>
    rw [List.cons_append, quotedLength?, if_neg plain]
    exacts [quote, fun _ same _ => back same, back, slash]

theorem rawLength?_le {kind : Quoted} {hashes : List Char}
    (h : rawLength? kind hashes cs = some n) : n ≤ cs.length := by
  fun_induction rawLength? kind hashes cs generalizing n <;>
    grind [Option.map_eq_some_iff, List.isPrefixOf_iff_prefix, → List.IsPrefix.length_le]

theorem rawLength?_of_notMem {kind : Quoted} {hashes : List Char} (free : '"' ∉ cs) :
    rawLength? kind hashes cs = none := by
  fun_induction rawLength? kind hashes cs <;> simp_all

theorem IsAppendix.rawLength?_append (h : IsAppendix t) (kind : Quoted) {hashes : List Char}
    (free : ':' ∉ hashes) (cs : List Char) :
    rawLength? kind hashes (cs ++ t) = rawLength? kind hashes cs := by
  fun_induction rawLength? kind hashes cs
  case case1 => exact rawLength?_of_notMem (h.free '"' (by decide))
  case case2 ih => rw [List.cons_append, List.cons_append, rawLength?, ih]
  case case3 cs other =>
    rw [List.cons_append, rawLength?]
    intro more same
    obtain ⟨rest, rfl, -⟩ := h.exists_of_append_eq (by decide) same
    exact other rest rfl
  case case4 c cs _ back closes =>
    rw [List.cons_append, rawLength?, h.isPrefixOf_append free, if_pos closes]
    exacts [fun _ same _ => back same, back]
  case case5 c cs _ back ends plain ih =>
    rw [List.cons_append, rawLength?, h.isPrefixOf_append free, if_neg ends, if_pos plain, ih]
    exacts [fun _ same _ => back same, back]
  case case6 c cs _ back ends plain =>
    rw [List.cons_append, rawLength?, h.isPrefixOf_append free, if_neg ends, if_neg plain]
    exacts [fun _ same _ => back same, back]

theorem IsAppendix.hashedLength?_append (h : IsAppendix t) (kind : Quoted) (cs : List Char) :
    hashedLength? kind (cs ++ t) = hashedLength? kind cs := by
  have free : ':' ∉ cs.takeWhile (· == '#') := fun mem =>
    absurd (List.mem_takeWhile_imp mem) (by decide)
  unfold hashedLength?
  dsimp only
  rw [h.takeWhile_append (by decide), List.drop_append_of_le_length
    (List.takeWhile_sublist _).length_le]
  rcases cs.drop (cs.takeWhile (· == '#')).length with _ | ⟨c, body⟩
  · obtain ⟨more, same⟩ := h.colon
    rw [same]
    rfl
  · by_cases quote : c = '"'
    · subst quote
      simp only [List.cons_append, h.rawLength?_append kind free]
    · simp [quote]

theorem hashedLength?_le {kind : Quoted} (h : hashedLength? kind cs = some n) : n ≤ cs.length := by
  unfold hashedLength? at h
  dsimp only at h
  split at h
  · rename_i body rest
    split_ifs at h
    obtain ⟨m, raw, rfl⟩ := Option.map_eq_some_iff.mp h
    have within := rawLength?_le raw
    have length := congrArg List.length rest
    rw [List.length_drop, List.length_cons] at length
    omega
  · cases h

theorem IsAppendix.getElem?_append_eq_some (h : IsAppendix t) {x : Char} (ends : x ∈ enders) :
    (cs ++ t)[n]? = some x ↔ cs[n]? = some x := by
  rw [List.getElem?_append]
  split_ifs with within
  · rfl
  · refine iff_of_false (fun found => h.free x ends (List.mem_of_getElem? found)) fun found => ?_
    exact within (List.getElem?_eq_some_iff.mp found).1

theorem IsAppendix.singleLength?_append (h : IsAppendix t) (kind : Quoted) (cs : List Char) :
    singleLength? kind (cs ++ t) = singleLength? kind cs := by
  obtain ⟨more, same⟩ := h.colon
  rcases cs with _ | ⟨c, cs⟩
  · rw [same]
    rcases more with _ | ⟨x, more⟩
    · rfl
    · have other : x ≠ '\'' := by
        rintro rfl
        exact h.free '\'' (by decide) (by rw [same]; simp)
      simp [singleLength?, other]
  · by_cases slash : c = '\\'
    · subst slash
      rcases cs with _ | ⟨d, cs⟩
      · rw [same]
        rfl
      · by_cases ends : d = '\n' ∨ d = '\r'
        · rcases ends with rfl | rfl <;> rfl
        · rw [not_or] at ends
          have unfolded (xs : List Char) : singleLength? kind ('\\' :: d :: xs) =
              (escapeLength? kind (d :: xs)).bind fun n =>
                if (d :: xs)[n]? = some '\'' then some (n + 2) else none := by
            cases escape : escapeLength? kind (d :: xs) <;> simp [singleLength?, ends, escape]
          rw [List.cons_append, List.cons_append, unfolded, unfolded, ← List.cons_append]
          simp only [h.getElem?_append_eq_some (x := '\'') (by decide)]
          obtain same | ⟨none, n, long, same⟩ := h.escapeLength?_append kind (d :: cs)
          · rw [same]
          · have outside : (d :: cs)[n]? = .none := List.getElem?_eq_none long
            rw [same, none, Option.bind_some, outside]
            rfl
    · rcases cs with _ | ⟨d, cs⟩
      · rw [same]
        simp [singleLength?, slash]
      · by_cases quote : d = '\''
        · subst quote
          simp [singleLength?]
        · simp [singleLength?, slash, quote]

theorem singleLength?_le {kind : Quoted} (h : singleLength? kind cs = some n) : n ≤ cs.length := by
  unfold singleLength? at h
  split at h
  · split at h
    · cases h
    · cases h
    · split at h
      · rename_i escape
        split_ifs at h with closes
        cases h
        have within := (List.getElem?_eq_some_iff.mp closes).1
        rw [List.length_cons]
        omega
      · cases h
  · split_ifs at h
    cases h
    simp
  · cases h

/-! ## Numbers -/

theorem Breaks.suffixed?_append (h : Breaks t) (within : n ≤ cs.length) :
    suffixed? (cs ++ t) n = suffixed? cs n := by
  have total : n + plainNameLength (cs.drop n) ≤ cs.length := by
    have length := plainNameLength_le (cs.drop n)
    rw [List.length_drop] at length
    omega
  rw [suffixed?, suffixed?, h.plainNameLength_drop_append within,
    List.drop_append_of_le_length total, h.any_head?_append (by decide)]

theorem suffixed?_le {m : Nat} (within : n ≤ cs.length) (h : suffixed? cs n = some m) :
    m ≤ cs.length := by
  have length := plainNameLength_le (cs.drop n)
  rw [List.length_drop] at length
  rw [suffixed?] at h
  split_ifs at h
  cases h
  omega

theorem Breaks.exponentLength?_append (h : Breaks t) (cs : List Char) :
    exponentLength? (cs ++ t) = exponentLength? cs := by
  unfold exponentLength?
  dsimp only
  rw [h.takeWhile_append (by decide), List.drop_append_of_le_length
    (List.takeWhile_sublist _).length_le]
  rcases cs.drop (cs.takeWhile (· == '_')).length with _ | ⟨c, rest⟩
  · obtain ⟨x, more, rfl, mem⟩ := h
    have other : ∀ x ∈ breaks, x ≠ '+' ∧ x ≠ '-' ∧ x.isDigit = false ∧ x ≠ '_' := by decide
    obtain ⟨plus, minus, digit, underscore⟩ := other x mem
    simp [plus, minus, digit, underscore]
  · by_cases sign : c = '+' ∨ c = '-'
    · rcases sign with rfl | rfl <;>
        simp only [List.cons_append, List.drop_succ_cons, List.drop_zero,
          h.takeWhile_append (f := fun c => c.isDigit || c == '_') (by decide)]
    · rw [not_or] at sign
      have digits :=
        h.takeWhile_append (f := fun c => c.isDigit || c == '_') (by decide) (c :: rest)
      rw [List.cons_append] at digits
      simp [sign, digits]

theorem exponentLength?_le (h : exponentLength? cs = some n) : n ≤ cs.length := by
  unfold exponentLength? at h
  dsimp only at h
  have lead := (List.takeWhile_sublist (l := cs) (· == '_')).length_le
  rcases tail : cs.drop (cs.takeWhile (· == '_')).length with _ | ⟨c, rest⟩
  · simp [tail] at h
  · have length := congrArg List.length tail
    rw [List.length_drop, List.length_cons] at length
    have signed (k : Nat) (few : k ≤ 1) := (List.takeWhile_sublist (l := (c :: rest).drop k)
      fun c => c.isDigit || c == '_').length_le
    simp only [tail, List.length_drop, List.length_cons] at h signed
    split_ifs at h
    cases h
    split
    · have := signed 1 (Nat.le_refl _)
      omega
    · have := signed 1 (Nat.le_refl _)
      omega
    · have := signed 0 (Nat.zero_le _)
      omega

theorem Breaks.fractionLength?_append (h : Breaks t) (cs : List Char) :
    fractionLength? (cs ++ t) = fractionLength? cs := by
  obtain ⟨x, more, same, mem⟩ := id h
  have other : ∀ x ∈ breaks, x.isDigit = false ∧ x ≠ '.' ∧ x ≠ 'e' ∧ x ≠ 'E' := by decide
  obtain ⟨digit, dot, lower, upper⟩ := other x mem
  rcases cs with _ | ⟨first, cs⟩
  · rw [same]
    simp [fractionLength?, digit]
  · have whole := h.takeWhile_append (f := fun c => c.isDigit || c == '_') (by decide) (first :: cs)
    have within :=
      (List.takeWhile_sublist (l := first :: cs) fun c => c.isDigit || c == '_').length_le
    rw [List.cons_append] at whole
    simp only [List.cons_append, fractionLength?, whole]
    split_ifs
    · rfl
    · rw [← List.cons_append, List.drop_append_of_le_length within]
      rcases tail : (first :: cs).drop
        ((first :: cs).takeWhile fun c => c.isDigit || c == '_').length with _ | ⟨c, rest⟩
      · simp only [tail, same, List.nil_append]
        simp [lower, upper]
      · by_cases point : c = '.'
        · subst point
          have digits := h.takeWhile_append (f := fun c => c.isDigit || c == '_') (by decide) rest
          have length := congrArg List.length tail
          rw [List.length_drop, List.length_cons (a := '.')] at length
          have fewer :=
            (List.takeWhile_sublist (l := rest) fun c => c.isDigit || c == '_').length_le
          have behind : ((first :: cs).takeWhile fun c => c.isDigit || c == '_').length + 1 +
              (rest.takeWhile fun c => c.isDigit || c == '_').length ≤ (first :: cs).length := by
            omega
          have point : (rest ++ t).head? = some '.' ↔ rest.head? = some '.' := by
            cases rest with
            | nil => rw [List.nil_append, same]; simp [dot]
            | cons d rest => rfl
          have names : startsName (rest ++ t) = startsName rest :=
            h.any_head?_append (by decide) rest
          simp only [tail, List.cons_append, digits, point, names]
          split_ifs
          · rfl
          · rw [← List.cons_append, List.drop_append_of_le_length behind]
            rcases (first :: cs).drop
              (((first :: cs).takeWhile fun c => c.isDigit || c == '_').length + 1 +
                (rest.takeWhile fun c => c.isDigit || c == '_').length) with _ | ⟨e, rest⟩
            · rw [same]
              simp [lower, upper]
            · simp only [List.cons_append, h.exponentLength?_append]
        · simp [tail, h.exponentLength?_append]

theorem fractionLength?_le (h : fractionLength? cs = some n) : n ≤ cs.length := by
  unfold fractionLength? at h
  split at h
  · cases h
  · rename_i first cs
    split_ifs at h
    dsimp only at h
    split at h
    · rename_i rest tail
      have length := congrArg List.length tail
      rw [List.length_drop, List.length_cons (a := '.')] at length
      have fewer := (List.takeWhile_sublist (l := rest) fun c => c.isDigit || c == '_').length_le
      split_ifs at h
      split at h
      · rename_i e rest' behind
        have length' := congrArg List.length behind
        rw [List.length_drop, List.length_cons (a := e)] at length'
        split_ifs at h
        · split at h
          · rename_i exponent
            have within := exponentLength?_le exponent
            cases h
            omega
          · cases h
            omega
        · cases h
          omega
      · cases h
        omega
    · rename_i e rest _ tail
      have length := congrArg List.length tail
      rw [List.length_drop, List.length_cons (a := e)] at length
      split_ifs at h
      obtain ⟨m, exponent, rfl⟩ := Option.map_eq_some_iff.mp h
      have within := exponentLength?_le exponent
      omega
    · cases h

theorem Breaks.wholeDigits?_append (h : Breaks t) (base : Nat) (cs : List Char)
    (seen : Bool) :
    wholeDigits? base (cs ++ t) seen = wholeDigits? base cs seen := by
  induction cs generalizing seen with
  | nil =>
    obtain ⟨x, more, rfl, mem⟩ := h
    have other : ∀ x ∈ breaks, x ≠ '_' ∧ Literal.hexValue? x = none := by decide
    obtain ⟨underscore, none⟩ := other x mem
    simp [wholeDigits?, underscore, none]
  | cons c cs ih => simp only [List.cons_append, wholeDigits?, ih]

theorem wholeDigits?_le {base : Nat} {seen : Bool} (h : wholeDigits? base cs seen = some n) :
    n ≤ cs.length := by
  fun_induction wholeDigits? base cs seen generalizing n <;> grind [Option.map_eq_some_iff]

theorem wholeLength?_of_decimal (x : ['0', 'x'].isPrefixOf cs = false)
    (o : ['0', 'o'].isPrefixOf cs = false) (b : ['0', 'b'].isPrefixOf cs = false) :
    wholeLength? cs = wholeDigits? 10 cs false := by
  unfold wholeLength?
  split
  · cases x
  · cases o
  · cases b
  · rfl

theorem Breaks.wholeLength?_append (h : Breaks t) (cs : List Char) :
    wholeLength? (cs ++ t) = wholeLength? cs := by
  have x := h.isPrefixOf_append (s := ['0', 'x']) (by decide) cs
  have o := h.isPrefixOf_append (s := ['0', 'o']) (by decide) cs
  have b := h.isPrefixOf_append (s := ['0', 'b']) (by decide) cs
  by_cases based : (['0', 'x'].isPrefixOf cs || ['0', 'o'].isPrefixOf cs ||
      ['0', 'b'].isPrefixOf cs) = true
  · simp only [Bool.or_eq_true] at based
    rcases based with (based | based) | based
    all_goals
      obtain ⟨rest, rfl⟩ := exists_of_isPrefixOf based
      simp only [List.cons_append, List.nil_append, wholeLength?, h.wholeDigits?_append]
  · simp only [Bool.or_eq_true, not_or, Bool.not_eq_true] at based
    obtain ⟨⟨hx, ho⟩, hb⟩ := based
    rw [wholeLength?_of_decimal hx ho hb, wholeLength?_of_decimal (x.trans hx) (o.trans ho)
      (b.trans hb), h.wholeDigits?_append]

theorem wholeLength?_le (h : wholeLength? cs = some n) : n ≤ cs.length := by
  unfold wholeLength? at h
  split at h <;> grind [Option.map_eq_some_iff, → wholeDigits?_le]

theorem Breaks.numberLength?_append (h : Breaks t) (cs : List Char) :
    numberLength? (cs ++ t) = numberLength? cs := by
  have suffixed (length? : Option Nat) (within : ∀ n, length? = some n → n ≤ cs.length) :
      length?.bind (suffixed? (cs ++ t)) = length?.bind (suffixed? cs) := by
    cases length? with
    | none => rfl
    | some n => exact h.suffixed?_append (within n rfl)
  rw [numberLength?, numberLength?, h.fractionLength?_append, h.wholeLength?_append,
    suffixed _ fun n => fractionLength?_le, suffixed _ fun n => wholeLength?_le]

theorem numberLength?_le (h : numberLength? cs = some n) : n ≤ cs.length := by
  unfold numberLength? at h
  split at h
  · rename_i fraction
    cases h
    obtain ⟨m, fraction, suffix⟩ := Option.bind_eq_some_iff.mp fraction
    exact suffixed?_le (fractionLength?_le fraction) suffix
  · obtain ⟨m, whole, suffix⟩ := Option.bind_eq_some_iff.mp h
    exact suffixed?_le (wholeLength?_le whole) suffix

/-! ## Literals, lifetimes and marks -/

theorem IsAppendix.map_closeLiteral_append (h : IsAppendix t) {length? : List Char → Option Nat}
    (opening : List Char) {rest : List Char} (same : length? (rest ++ t) = length? rest)
    (within : ∀ {n}, length? rest = some n → n ≤ rest.length) :
    (length? (rest ++ t)).map (closeLiteral (opening ++ rest ++ t) opening.length) =
      (length? rest).map (closeLiteral (opening ++ rest) opening.length) := by
  rw [same]
  cases length : length? rest with
  | none => rfl
  | some n =>
    have inside : opening.length + n ≤ (opening ++ rest).length := by
      rw [List.length_append]
      exact Nat.add_le_add_left (within length) _
    rw [Option.map_some, Option.map_some, closeLiteral, closeLiteral,
      h.breaks.plainNameLength_drop_append inside]

def openings : List (List Char) :=
  ["\"", "'", "r", "b\"", "br", "b'", "c\"", "cr"].map String.toList

theorem literalLength?_of_number (none : ∀ start ∈ openings, start.isPrefixOf cs = false) :
    literalLength? cs = numberLength? cs := by
  unfold literalLength?
  split
  · cases none ['"'] (by decide)
  · cases none ['\''] (by decide)
  · cases none ['r'] (by decide)
  · cases none ['b', '"'] (by decide)
  · cases none ['b', 'r'] (by decide)
  · cases none ['b', '\''] (by decide)
  · cases none ['c', '"'] (by decide)
  · cases none ['c', 'r'] (by decide)
  · rfl

theorem IsAppendix.literalLength?_append (h : IsAppendix t) (cs : List Char) :
    literalLength? (cs ++ t) = literalLength? cs := by
  have free : ∀ start ∈ openings, ':' ∉ start := by decide
  by_cases number : ∀ start ∈ openings, start.isPrefixOf cs = false
  · rw [literalLength?_of_number number, literalLength?_of_number fun start mem =>
      (h.isPrefixOf_append (free start mem) cs).trans (number start mem), h.breaks.numberLength?_append]
  · push Not at number
    obtain ⟨start, mem, first⟩ := number
    obtain ⟨rest, rfl⟩ :=
      exists_of_isPrefixOf (Bool.not_eq_false _ ▸ first : start.isPrefixOf cs = true)
    have quoted (kind : Quoted) := h.map_closeLiteral_append start
      (h.quotedLength?_append kind rest) quotedLength?_le
    have single (kind : Quoted) := h.map_closeLiteral_append start
      (h.singleLength?_append kind rest) singleLength?_le
    have hashed (kind : Quoted) := h.map_closeLiteral_append start
      (h.hashedLength?_append kind rest) hashedLength?_le
    simp only [openings, List.map_cons, List.map_nil, List.mem_cons, List.not_mem_nil,
      or_false] at mem
    rcases mem with rfl | rfl | rfl | rfl | rfl | rfl | rfl | rfl
    · exact quoted .text
    · exact single .text
    · exact hashed .text
    · exact quoted .bytes
    · exact hashed .bytes
    · exact single .bytes
    · exact quoted .foreign
    · exact hashed .foreign

theorem closeLiteral_le {opening : Nat} (h : opening + n ≤ cs.length) :
    closeLiteral cs opening n ≤ cs.length := by
  have suffix := plainNameLength_le (cs.drop (opening + n))
  rw [List.length_drop] at suffix
  rw [closeLiteral]
  omega

theorem literalLength?_le (h : literalLength? cs = some n) : n ≤ cs.length := by
  unfold literalLength? at h
  split at h
  case h_9 => exact numberLength?_le h
  all_goals
    obtain ⟨m, length, rfl⟩ := Option.map_eq_some_iff.mp h
    refine closeLiteral_le ?_
    simp only [List.length_cons]
    first
      | have := quotedLength?_le length; omega
      | have := singleLength?_le length; omega
      | have := hashedLength?_le length; omega

theorem startsComment_eq (cs : List Char) :
    startsComment cs = (['/', '/'].isPrefixOf cs || ['/', '*'].isPrefixOf cs) := by
  unfold startsComment
  split
  · rfl
  · rfl
  · rename_i line block
    refine (Bool.or_eq_false_iff.mpr ⟨?_, ?_⟩).symm
    · refine Bool.eq_false_iff.mpr fun first => ?_
      obtain ⟨rest, rfl⟩ := exists_of_isPrefixOf first
      exact line rest rfl
    · refine Bool.eq_false_iff.mpr fun first => ?_
      obtain ⟨rest, rfl⟩ := exists_of_isPrefixOf first
      exact block rest rfl

theorem IsAppendix.startsMark_append (h : IsAppendix t) {c : Char} (cs : List Char) :
    startsMark (c :: cs ++ t) = startsMark (c :: cs) := by
  have line := h.isPrefixOf_append (s := ['/', '/']) (by decide) (c :: cs)
  have block := h.isPrefixOf_append (s := ['/', '*']) (by decide) (c :: cs)
  rw [startsMark, startsMark, startsComment_eq, startsComment_eq, line, block]
  rfl

theorem IsAppendix.lifetimeLength?_append (h : IsAppendix t) (cs : List Char) :
    lifetimeLength? (cs ++ t) = lifetimeLength? cs := by
  obtain ⟨more, same⟩ := h.colon
  have raw : "r#".toList.isPrefixOf (cs ++ t) = "r#".toList.isPrefixOf cs :=
    h.isPrefixOf_append (by decide) cs
  unfold lifetimeLength?
  rw [h.anyNameLength?_append]
  cases length : anyNameLength? cs with
  | none => rfl
  | some n =>
    dsimp only
    rw [List.drop_append_of_le_length (anyNameLength?_le length), raw]
    rcases cs.drop n with _ | ⟨c, rest⟩
    · rw [same]
      rfl
    · by_cases quote : c = '\''
      · subst quote
        rfl
      · by_cases number : c = '#'
        · subst number
          rfl
        · simp [quote, number]

theorem lifetimeLength?_le (h : lifetimeLength? cs = some n) : n ≤ cs.length := by
  unfold lifetimeLength? at h
  split at h
  · cases h
  · rename_i length
    have within := anyNameLength?_le length
    split at h
    · cases h
    · split_ifs at h
      cases h
      exact within
    · cases h
      exact within

theorem IsAppendix.apostrophe?_append (h : IsAppendix t) (cs : List Char) (p : Position) :
    apostrophe? (cs ++ t) p = apostrophe? cs p := by
  rw [apostrophe?, apostrophe?, h.lifetimeLength?_append, h.nameLength?_append]
  cases length : lifetimeLength? cs with
  | none => rfl
  | some n =>
    dsimp only [Option.map_some]
    rw [List.take_append_of_le_length (lifetimeLength?_le length)]

theorem leaf?_of_mark {c : Char} (p : Position) (literal : literalLength? (c :: cs) = none)
    (mark : startsMark (c :: cs) = true) (quote : c ≠ '\'') : leaf? (c :: cs) p =
      some (.mark c (startsMark cs) (Extent.covering p [c]), 1) := by
  unfold leaf?
  simp [literal, mark]

/-- What starts a text stays the same where something is appended, but for a mark at the end of the
text, to which the colon is joined. -/
theorem IsAppendix.leaf?_append (h : IsAppendix t) (c : Char) (cs : List Char) (p : Position) :
    leaf? (c :: cs ++ t) p = leaf? (c :: cs) p ∨
      cs = [] ∧ leaf? [c] p = some (.mark c false (Extent.covering p [c]), 1) ∧
        leaf? (c :: t) p = some (.mark c true (Extent.covering p [c]), 1) := by
  have literal' := h.literalLength?_append (c :: cs)
  have mark' := h.startsMark_append (c := c) cs
  by_cases marked : literalLength? (c :: cs) = none ∧ startsMark (c :: cs) = true ∧ c ≠ '\''
  · obtain ⟨literal, mark, quote⟩ := marked
    have leaf := leaf?_of_mark p literal mark quote
    have leaf' : leaf? (c :: (cs ++ t)) p =
        some (.mark c (startsMark (cs ++ t)) (Extent.covering p [c]), 1) :=
      leaf?_of_mark p (literal'.trans literal) (mark'.trans mark) quote
    rcases cs with _ | ⟨d, cs⟩
    · have colon : startsMark ([] ++ t) = true := by
        obtain ⟨more, rfl⟩ := h.colon
        rfl
      rw [colon] at leaf'
      exact .inr ⟨rfl, leaf, leaf'⟩
    · rw [h.startsMark_append] at leaf'
      exact .inl (leaf'.trans leaf.symm)
  · have take {n : Nat} (within : n ≤ (c :: cs).length) :
        (c :: cs ++ t).take n = (c :: cs).take n := List.take_append_of_le_length within
    have faulty' := h.isPrefixOf_append (s := faultyLiteral) (by decide) (c :: cs)
    refine .inl ?_
    unfold leaf?
    rw [literal', mark', h.nameLength?_append, faulty']
    dsimp only
    cases literal : literalLength? (c :: cs) with
    | some n => simp only [take (literalLength?_le literal)]
    | none =>
      cases mark : startsMark (c :: cs) with
      | true =>
        have quote : c = '\'' := by
          by_contra quote
          exact marked ⟨literal, mark, quote⟩
        subst quote
        exact h.apostrophe?_append cs p
      | false =>
        simp only [Bool.false_eq_true, if_false]
        cases name : nameLength? (c :: cs) with
        | some n => simp only [take (nameLength?_le name)]
        | none =>
          cases faulty : faultyLiteral.isPrefixOf (c :: cs) with
          | true => simp only [take (List.isPrefixOf_iff_prefix.mp faulty).length_le]
          | false => rfl

theorem leaf?_le {p : Position} {token : Token} (h : leaf? cs p = some (token, n)) :
    n ≤ cs.length := by
  unfold leaf? at h
  dsimp only at h
  split at h
  · rename_i literal
    cases h
    exact literalLength?_le literal
  · split at h
    · split at h
      · obtain ⟨m, length, same⟩ := Option.map_eq_some_iff.mp h
        have within := lifetimeLength?_le length
        split_ifs at same
        all_goals
          cases same
          simp only [List.length_cons]
          omega
      · cases h
        simp
      · cases h
    · split at h
      · rename_i name
        cases h
        exact nameLength?_le name
      · split at h
        · rename_i faulty
          cases h
          exact (List.isPrefixOf_iff_prefix.mp faulty).length_le
        · cases h

end FormulaBinding.Lexer
