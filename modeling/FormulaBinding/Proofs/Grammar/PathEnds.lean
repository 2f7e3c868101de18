import FormulaBinding.Proofs.Grammar.Segments

/-!
# Where a path ends

A path is read in the same way whatever stands behind its last segment, if neither arguments nor
a further segment start there. So its tokens are the same path in front of nothing and in front of
a comma.
-/

namespace FormulaBinding.Grammar

open FormulaBinding.Parser FormulaBinding.Token

-- A rule has more steps than the search for instances looks at by default.
set_option synthInstance.maxSize 1000

variable {read : Reader} {inExpr : Bool} {a b i n : ℕ} {c d : Cursor} {u : Unit}

theorem EndsPath.pathGoesOn {ts : List Token} (ends : EndsPath inExpr ts) :
    pathGoesOn ts = false := by
  rw [Grammar.pathGoesOn, ends.colons, Bool.false_and]

theorem endsPath_nil : EndsPath inExpr [] := ⟨rfl, by cases inExpr <;> rfl⟩

theorem endsPath_comma (j : Bool) (e : Extent) (ts : List Token) :
    EndsPath inExpr (.mark ',' j e :: ts) := by
  have less : Ahead.mark "<" (.mark ',' j e :: ts) = false := rfl
  refine ⟨rfl, ?_⟩
  rw [argumentsAhead, less, Bool.and_false]
  rfl

/-- Arguments do not start where a further segment does. -/
theorem argumentsAhead_of_link (h : link read inExpr c = .ok (u, d)) :
    argumentsAhead inExpr c.rest = false := by
  obtain ⟨e, j, e', ts, rest, run⟩ := link_eq_ok.mp h
  obtain ⟨w, e'', more, name⟩ := exists_name_of_segment run
  dsimp only at name
  rw [rest, name]
  cases inExpr <;> rfl

theorem link_cut (deep : 2 * n ≤ a) (deep' : 2 * n ≤ b) (few : sizeList c.rest < n)
    (h : link (reader a) inExpr c = .ok (u, d)) : ∃ us, c.rest = us ++ d.rest ∧ ∀ ts,
      argumentsAhead inExpr ts = argumentsAhead inExpr d.rest →
        link (reader b) inExpr { c with rest := us ++ ts } = .ok (u, { d with rest := ts }) := by
  obtain ⟨e, j, e', after, rest, run⟩ := link_eq_ok.mp h
  have fewer : sizeList after < n := Nat.lt_of_le_of_lt
    (sizeList_le_of_isSuffix ⟨[.mark ':' true e, .mark ':' j e'], rest.symm⟩) few
  obtain ⟨us, t, whole, -, again⟩ := segment_cut deep deep' fewer run
  dsimp only at whole
  refine ⟨.mark ':' true e :: .mark ':' j e' :: us ++ [t], by rw [rest, whole]; simp,
    fun ts same => link_eq_ok.mpr ⟨e, j, e', us ++ t :: ts, by simp, ?_⟩⟩
  exact again t ts (.refl t) same

theorem segment_cut_rest (deep : 2 * n ≤ a) (deep' : 2 * n ≤ b) (few : sizeList c.rest < n)
    (h : segment (reader a) inExpr c = .ok (u, d)) : ∃ us, c.rest = us ++ d.rest ∧ ∀ ts,
      argumentsAhead inExpr ts = argumentsAhead inExpr d.rest →
        segment (reader b) inExpr { c with rest := us ++ ts } = .ok (u, { d with rest := ts }) := by
  obtain ⟨us, t, whole, -, again⟩ := segment_cut deep deep' few h
  refine ⟨us ++ [t], by rw [whole]; simp, fun ts same => ?_⟩
  rw [List.append_assoc]
  exact again t ts (.refl t) same

theorem repeat_ends {ts : List Token} (ends : EndsPath inExpr ts) (enough : ts.length < i) :
    repeatUpTo (furtherSegment read inExpr) i { c with rest := ts } =
      .ok ((), { c with rest := ts }) := by
  obtain ⟨i, rfl⟩ := Nat.exists_eq_succ_of_ne_zero (Nat.ne_zero_of_lt enough)
  exact run_bind_eq_ok.mpr
    ⟨false, _, furtherSegment_eq_ok.mpr (.inr ⟨rfl, ends.pathGoesOn, rfl⟩), rfl⟩

/-- The segments of a path are read in the same way wherever it ends behind them. Whether arguments
start in front of them is the same as well, since the segment before them depends on it. -/
theorem repeat_cut (deep : 2 * n ≤ a) (deep' : 2 * n ≤ b) (few : sizeList c.rest < n)
    (h : repeatUpTo (furtherSegment (reader a) inExpr) i c = .ok ((), d))
    (none : argumentsAhead inExpr d.rest = false) :
    ∃ us, c.rest = us ++ d.rest ∧ ∀ ts, EndsPath inExpr ts →
      argumentsAhead inExpr (us ++ ts) = argumentsAhead inExpr c.rest ∧
      ∀ j, (us ++ ts).length < j →
        repeatUpTo (furtherSegment (reader b) inExpr) j { c with rest := us ++ ts } =
          .ok ((), { d with rest := ts }) := by
  induction i generalizing c with
  | zero =>
    cases h
    exact ⟨[], rfl, fun ts ends => ⟨ends.arguments.trans none.symm, fun j => repeat_ends ends⟩⟩
  | succ i ih =>
    obtain ⟨t, x, once, run⟩ := run_bind_eq_ok.mp h
    rcases furtherSegment_eq_ok.mp once with ⟨rfl, linked⟩ | ⟨rfl, -, rfl⟩
    · obtain ⟨us, whole, again⟩ := link_cut deep deep' few linked
      have fewer : sizeList x.rest ≤ sizeList c.rest :=
        sizeList_le_of_isSuffix (Advances.rest (R := Remains) linked)
      obtain ⟨us', whole', more⟩ := ih (Nat.lt_of_le_of_lt fewer few) run
      refine ⟨us ++ us', by rw [whole, whole', List.append_assoc], fun ts ends => ?_⟩
      obtain ⟨same, rest⟩ := more ts ends
      have linked' := again (us' ++ ts) same
      rw [List.append_assoc]
      refine ⟨(argumentsAhead_of_link linked').trans (argumentsAhead_of_link linked).symm,
        fun j enough => ?_⟩
      have shorter := Consumes.shorter linked'
      obtain ⟨j, rfl⟩ := Nat.exists_eq_succ_of_ne_zero (Nat.ne_zero_of_lt enough)
      exact run_bind_eq_ok.mpr ⟨true, _, furtherSegment_eq_ok.mpr (.inl ⟨rfl, linked'⟩),
        rest j (Nat.lt_of_lt_of_le shorter (Nat.le_of_lt_succ enough))⟩
    · cases run
      exact ⟨[], rfl, fun ts ends => ⟨ends.arguments.trans none.symm, fun j => repeat_ends ends⟩⟩

/-- A path is read in the same way wherever it ends behind its tokens. -/
theorem pathParts_cut (deep : 2 * n ≤ a) (deep' : 2 * n ≤ b) (few : sizeList c.rest < n)
    (h : pathParts (reader a) inExpr c = .ok ((), d))
    (none : argumentsAhead inExpr d.rest = false) :
    ∃ us, c.rest = us ++ d.rest ∧ ∀ ts, EndsPath inExpr ts →
      pathParts (reader b) inExpr { c with rest := us ++ ts } =
        .ok ((), { d with rest := ts }) := by
  obtain ⟨x, first, run⟩ := pathParts_eq_ok.mp h
  have start : ∃ us, c.rest = us ++ x.rest ∧ ∀ ts,
      argumentsAhead inExpr ts = argumentsAhead inExpr x.rest →
        link (reader b) inExpr { c with rest := us ++ ts } = .ok ((), { x with rest := ts }) ∨
        segment (reader b) inExpr { c with rest := us ++ ts } =
          .ok ((), { x with rest := ts }) := by
    rcases first with first | first
    · obtain ⟨us, whole, again⟩ := link_cut deep deep' few first
      exact ⟨us, whole, fun ts same => .inl (again ts same)⟩
    · obtain ⟨us, whole, again⟩ := segment_cut_rest deep deep' few first
      exact ⟨us, whole, fun ts same => .inr (again ts same)⟩
  obtain ⟨us, whole, again⟩ := start
  have fewer : sizeList x.rest ≤ sizeList c.rest := sizeList_le_of_isSuffix ⟨us, whole.symm⟩
  obtain ⟨us', whole', more⟩ := repeat_cut deep deep' (Nat.lt_of_le_of_lt fewer few) run none
  refine ⟨us ++ us', by rw [whole, whole', List.append_assoc], fun ts ends => ?_⟩
  obtain ⟨same, rest⟩ := more ts ends
  rw [List.append_assoc]
  exact pathParts_eq_ok.mpr ⟨_, again _ same, rest _ (Nat.lt_succ_self _)⟩

/-- Whether tokens are a path by themselves, one of an expression if `inExpr`. -/
def IsPath (inExpr : Bool) (ts : List Token) : Prop :=
  (readTokens (fun read => path read inExpr) ts).isOk = true

instance : DecidablePred (IsPath inExpr) := fun _ => inferInstanceAs (Decidable (_ = true))

variable {P us : List Token} {w : String}

theorem isPath_iff : IsPath inExpr P ↔ ∃ d, pathParts (reader (depth P)) inExpr { rest := P } =
    .ok ((), d) ∧ d.rest = [] ∧ d.leftover = none := by
  rw [IsPath, isOk_iff, readTokens]
  constructor
  · rintro ⟨⟨_, row⟩, read⟩
    obtain ⟨d, run, rest, clear, -⟩ := runAll_eq_ok.mp read
    obtain ⟨x, parts, rfl⟩ := node_eq_ok.mp run
    exact ⟨x, parts, rest, clear⟩
  · rintro ⟨d, parts, rest, clear⟩
    exact ⟨((), _), runAll_eq_ok.mpr ⟨_, node_eq_ok.mpr ⟨d, parts, rfl⟩, rest, clear, rfl⟩⟩

/-- A path that is read by itself is read in front of any tokens that end a path. -/
theorem IsPath.run (h : IsPath inExpr P) : ∃ parts, ∀ {n : ℕ} {c : Cursor} {us : List Token},
    depth P ≤ n → EndsPath inExpr us → c.rest = P ++ us → c.leftover = none →
      path (reader n) inExpr c =
        .ok ((), { c with rest := us, row := .node .path parts :: c.row }) := by
  obtain ⟨d, run, atEnd, clear⟩ := isPath_iff.mp h
  refine ⟨d.row.reverse, fun {n c us} enough ends rest clear' => ?_⟩
  rcases d with ⟨_, x, _, row⟩
  cases atEnd
  cases clear
  have deep : 2 * (sizeList P + 1) ≤ depth P := by rw [depth]; omega
  have deep' := deep.trans enough
  have : AgreeInside (sizeList P + 1) (reader (depth P)) (reader n) :=
    agreeInside_reader deep deep'
  have : AgreeAhead [] [] (fun _ => c.inside) (sizeList P + 1) (reader (depth P)) (reader n) :=
    agreeAhead_reader deep deep'
  have agree : Agrees [] [] (fun _ => c.inside) false (sizeList P + 1)
      (pathParts (reader (depth P)) inExpr) (pathParts (reader n) inExpr) := inferInstance
  have again := @agree.run P [] { rest := P } { rest := [], inside := x, row := row } ()
    (Nat.lt_succ_self _) (by simpa using run)
  rw [List.append_nil] at again
  obtain ⟨us', whole, anywhere⟩ := pathParts_cut deep' deep' (Nat.lt_succ_self _) again
    endsPath_nil.arguments
  obtain rfl : P = us' := whole.trans (List.append_nil us')
  rcases c with ⟨_, inside, _, row'⟩
  cases rest
  cases clear'
  exact node_eq_ok.mpr ⟨_, anywhere us ends, rfl⟩


theorem IsPath.concat (h : IsPath inExpr P) (free : w ∉ reservedWords) (e e' e'' : Extent) :
    IsPath inExpr (P ++ colonName e e' e'' w) := by
  obtain ⟨d, run, atEnd, clear⟩ := isPath_iff.mp h
  have size : sizeList (P ++ colonName e e' e'' w) = sizeList P + 3 := by
    rw [sizeList_append]
    rfl
  have deep : 2 * (sizeList P + 1) ≤ depth P := by rw [depth]; omega
  have deep' : 2 * (sizeList P + 1) ≤ depth (P ++ colonName e e' e'' w) := by
    rw [depth, size]
    omega
  have continued : Continued (colonName e e' e'' w) P (P ++ colonName e e' e'' w) := by
    have none : Continued (colonName e e' e'' w) [] (colonName e e' e'' w) := .nil
    simpa using none.append_left P
  have more := pathParts_continued (c := { rest := [] }) deep deep' (Nat.lt_succ_self _) (.inl free) continued
    run atEnd
  exact isPath_iff.mpr ⟨_, more, atEnd, clear⟩

theorem argumentsAhead_of_expr {ts : List Token} (h : argumentsAhead true ts = true) :
    argumentsAhead false ts = true := by
  rw [argumentsAhead, Bool.or_eq_true] at h ⊢
  exact h.elim (fun h => by simp at h) .inr

/-- In front of a further segment arguments start in a type where they do in an expression. -/
theorem argumentsAhead_colons {ts : List Token} (h : Ahead.mark "::" ts = true)
    (none : argumentsAhead true ts = false) : argumentsAhead false ts = false := by
  obtain ⟨e, j, e', us, rfl⟩ := ahead_colons_eq_true.mp h
  exact none

/-- Whether a path ends or goes on in front of tokens. -/
def LeavesPath (ts : List Token) : Prop := ts = [] ∨ Ahead.mark "::" ts = true

theorem segment_of_expr (h : segment read true c = .ok (u, d)) (ends : LeavesPath d.rest) :
    segment read false c = .ok (u, d) := by
  obtain ⟨w, e, ts, x, rest, rfl, ⟨special, rfl⟩ | ⟨other, free, run⟩⟩ := segment_eq_ok.mp h
  · exact segment_eq_ok.mpr ⟨w, e, ts, _, rest, rfl, .inl ⟨special, rfl⟩⟩
  refine segment_eq_ok.mpr ⟨w, e, ts, x, rest, rfl, .inr ⟨other, free, ?_⟩⟩
  obtain ⟨none, rfl⟩ | ⟨some, run⟩ := furtherArguments_eq_ok.mp run
  · refine furtherArguments_eq_ok.mpr (.inl ⟨?_, rfl⟩)
    rcases ends with rfl | colons
    · rfl
    · exact argumentsAhead_colons colons none
  · exact furtherArguments_eq_ok.mpr (.inr ⟨argumentsAhead_of_expr some, run⟩)

theorem link_of_expr (h : link read true c = .ok (u, d)) (ends : LeavesPath d.rest) :
    link read false c = .ok (u, d) := by
  obtain ⟨e, j, e', ts, rest, run⟩ := link_eq_ok.mp h
  exact link_eq_ok.mpr ⟨e, j, e', ts, rest, segment_of_expr run ends⟩

theorem leavesPath_of_link (h : link read inExpr c = .ok (u, d)) : LeavesPath c.rest := by
  obtain ⟨e, j, e', ts, rest, -⟩ := link_eq_ok.mp h
  exact .inr (ahead_colons_eq_true.mpr ⟨e, j, e', ts, rest⟩)

theorem repeat_of_expr (h : repeatUpTo (furtherSegment read true) i c = .ok (u, d))
    (atEnd : d.rest = []) :
    LeavesPath c.rest ∧ repeatUpTo (furtherSegment read false) i c = .ok (u, d) := by
  induction i generalizing c with
  | zero =>
    cases h
    exact ⟨.inl atEnd, rfl⟩
  | succ i ih =>
    obtain ⟨t, x, once, run⟩ := run_bind_eq_ok.mp h
    rcases furtherSegment_eq_ok.mp once with ⟨rfl, linked⟩ | ⟨rfl, ends, rfl⟩
    · obtain ⟨leaves, later⟩ := ih run
      exact ⟨leavesPath_of_link linked, run_bind_eq_ok.mpr
        ⟨true, x, furtherSegment_eq_ok.mpr (.inl ⟨rfl, link_of_expr linked leaves⟩), later⟩⟩
    · cases run
      exact ⟨.inl atEnd, run_bind_eq_ok.mpr
        ⟨false, _, furtherSegment_eq_ok.mpr (.inr ⟨rfl, ends, rfl⟩), rfl⟩⟩

theorem IsPath.of_expr (h : IsPath true P) : IsPath false P := by
  obtain ⟨d, run, atEnd, clear⟩ := isPath_iff.mp h
  obtain ⟨x, first, run⟩ := pathParts_eq_ok.mp run
  obtain ⟨leaves, later⟩ := repeat_of_expr run atEnd
  exact isPath_iff.mpr ⟨d, pathParts_eq_ok.mpr ⟨x, first.imp (link_of_expr · leaves)
    (segment_of_expr · leaves), later⟩, atEnd, clear⟩

/-- The first tokens of a path: a word, up to the next double colon or up to arguments, which
follow no keyword, or a double colon. -/
inductive StartsPath (inExpr : Bool) : List Token → Prop
  | word (w : String) (e : Extent) (segment : w = "Self" ∨ IsSegment w) :
    StartsPath inExpr [.name w e]
  | segments (w : String) (e e' e'' : Extent) (j : Bool) (ts : List Token)
    (segment : w = "Self" ∨ IsSegment w) :
    StartsPath inExpr (.name w e :: .mark ':' true e' :: .mark ':' j e'' :: ts)
  | arguments (w : String) (e e' : Extent) (j : Bool) (ts : List Token)
    (segment : w = "Self" ∨ w ∉ reservedWords) (type : inExpr = false) :
    StartsPath inExpr (.name w e :: .mark '<' j e' :: ts)
  | root (e e' : Extent) (j : Bool) (ts : List Token) :
    StartsPath inExpr (.mark ':' true e :: .mark ':' j e' :: ts)

theorem startsPath_of_repeat {e : Extent} {ts : List Token} (segment : w = "Self" ∨ IsSegment w)
    (h : repeatUpTo (furtherSegment read inExpr) (i + 1) c = .ok (u, d)) (atEnd : d.rest = [])
    (rest : c.rest = ts) : StartsPath inExpr (.name w e :: ts) := by
  subst rest
  obtain ⟨t, x, once, run⟩ := run_bind_eq_ok.mp h
  rcases furtherSegment_eq_ok.mp once with ⟨rfl, linked⟩ | ⟨rfl, -, rfl⟩
  · obtain ⟨e', j, e'', us, rest, -⟩ := link_eq_ok.mp linked
    rw [rest]
    exact .segments w e e' e'' j us segment
  · cases run
    rw [atEnd]
    exact .word w e segment

theorem IsPath.starts (h : IsPath inExpr P) : StartsPath inExpr P := by
  obtain ⟨d, run, atEnd, -⟩ := isPath_iff.mp h
  obtain ⟨x, first, run⟩ := pathParts_eq_ok.mp run
  rcases first with first | first
  · obtain ⟨e, j, e', ts, rfl, -⟩ := link_eq_ok.mp first
    exact .root e e' j ts
  obtain ⟨w, e, ts, y, rfl, rfl, ⟨special, rfl⟩ | ⟨-, free, args⟩⟩ := segment_eq_ok.mp first
  · exact startsPath_of_repeat (.inr (.inr special)) run atEnd rfl
  obtain ⟨-, rfl⟩ | ⟨ahead, -⟩ := furtherArguments_eq_ok.mp args
  · exact startsPath_of_repeat (free.imp_right .inl) run atEnd rfl
  rw [argumentsAhead, Bool.or_eq_true, Bool.and_eq_true] at ahead
  rcases ahead with less | colons
  · simp only [Bool.and_eq_true, Bool.not_eq_true'] at less
    obtain ⟨j, e', us, rfl⟩ := (ahead_mark_eq_true '<' rfl).mp less.1.1.2
    exact .arguments w e e' j us free less.1.1.1
  · rw [Bool.and_eq_true] at colons
    obtain ⟨e', j, e'', us, rfl⟩ := ahead_colons_eq_true.mp colons.1
    exact .segments w e e' e'' j us (free.imp_right .inl)

end FormulaBinding.Grammar
