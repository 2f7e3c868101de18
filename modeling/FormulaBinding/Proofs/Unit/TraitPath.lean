import FormulaBinding.Proofs.Grammar.Rows
import FormulaBinding.Proofs.Grammar.Segments
import FormulaBinding.Proofs.Token.Appending
import FormulaBinding.Proofs.Unit.Reading

/-!
# The path of a unit's trait

The namespace of a unit is read together with the name of the type that is written behind it. This
gives the path of the namespace with the type as its last segment, but for two sorts of namespaces:
one without any tokens, and one that ends in a comment, which the type then is a part of.
-/

namespace FormulaBinding

namespace Phrase

theorem depth_pos (p : Phrase) : 1 ≤ p.depth := by
  cases p with
  | token t => exact Nat.le_refl 1
  | group d parts o c => exact Nat.succ_pos _
  | node k parts => exact Nat.succ_pos _

theorem depthList_append (ps qs : List Phrase) :
    depthList (ps ++ qs) = max (depthList ps) (depthList qs) := by
  induction ps with
  | nil => exact (Nat.zero_max _).symm
  | cons p ps ih => rw [List.cons_append, depthList, depthList, ih, Nat.max_assoc]

theorem depth_le_depthList {p : Phrase} {ps : List Phrase} (mem : p ∈ ps) :
    p.depth ≤ depthList ps := by
  induction ps with
  | nil => cases mem
  | cons q ps ih =>
    rw [depthList]
    rcases List.mem_cons.mp mem with rfl | mem
    · exact Nat.le_max_left _ _
    · exact (ih mem).trans (Nat.le_max_right _ _)

end Phrase

namespace Grammar
open FormulaBinding.Parser

-- A rule has more steps than the search for instances looks at by default.
set_option synthInstance.maxSize 1000

variable {read : Reader} {inExpr : Bool} {c d : Cursor} {u : Unit} {e e' e'' : Extent} {w : String}
variable {us vs : List Token}

/-! ## The parts of a path -/

/-- A part of a path: a token, or a segment with something in it. -/
def IsPathPart : Phrase → Prop
  | .token _ => True
  | .node k parts => k = .segment ∧ parts ≠ []
  | .group .. => False

instance : AdmitsTokens IsPathPart := ⟨fun _ => trivial⟩

theorem IsPathPart.is_outerAttribute {p : Phrase} (h : IsPathPart p) :
    p.is .outerAttribute = false := by
  cases p with
  | token t => rfl
  | group d parts o c => cases h
  | node k parts =>
    cases h.1
    rfl

instance : Adds (fun _ => True) Phrase.Anything (furtherArguments read inExpr) := by
  dsimp only [furtherArguments, genericArguments]
  infer_instance

theorem exists_segment (h : segment read inExpr c = .ok (u, d)) :
    ∃ parts, parts ≠ [] ∧ d.row = .node .segment parts :: c.row := by
  obtain ⟨w, e, ts, x, -, rfl, parts⟩ := segment_eq_ok.mp h
  refine ⟨x.row.reverse, ?_, rfl⟩
  obtain ⟨-, rfl⟩ | ⟨-, -, run⟩ := parts
  · exact List.cons_ne_nil _ _
  · obtain ⟨ps, row, -⟩ := Adds.row (S := fun _ => True) (φ := Phrase.Anything) trivial run
    rw [row]
    simp

instance : Adds (fun _ => True) IsPathPart (segment read inExpr) := .of_row_cons fun run => by
  obtain ⟨parts, some, row⟩ := exists_segment run
  exact ⟨_, row, rfl, some⟩

section
variable [∀ nonterminal, Advances Remains (read nonterminal)]

instance : Adds (fun _ => True) IsPathPart (pathParts read inExpr) := by
  dsimp only [pathParts]
  infer_instance

/-- A path has parts of this sort only, and a segment among them. -/
theorem parts_of_pathParts (h : pathParts read inExpr { rest := us } = .ok (u, d)) :
    (∀ q ∈ d.row.reverse, IsPathPart q) ∧ 2 ≤ Phrase.depthList d.row.reverse := by
  have more (n : Nat) : Adds (fun _ => True) IsPathPart
      (repeatUpTo (furtherSegment read inExpr) n) := by
    dsimp only [furtherSegment]
    infer_instance
  constructor
  · obtain ⟨ps, row, all⟩ := Adds.row (S := fun _ => True) (φ := IsPathPart) trivial h
    rw [row, List.append_nil]
    exact fun q mem => all q (List.mem_reverse.mp mem)
  · obtain ⟨x, first, run⟩ := pathParts_eq_ok.mp h
    have segment : ∃ parts before, parts ≠ [] ∧ x.row = .node .segment parts :: before := by
      rcases first with first | first
      · obtain ⟨_, y, -, last⟩ := run_bind_eq_ok.mp first
        obtain ⟨parts, some, row⟩ := exists_segment last
        exact ⟨parts, _, some, row⟩
      · obtain ⟨parts, some, row⟩ := exists_segment first
        exact ⟨parts, _, some, row⟩
    obtain ⟨parts, before, some, row⟩ := segment
    obtain ⟨p, ps, rfl⟩ := List.exists_cons_of_ne_nil some
    obtain ⟨qs, row', -⟩ := (more _).row trivial run
    have inside : Phrase.node .segment (p :: ps) ∈ d.row.reverse := by
      rw [row', row]
      simp
    have deep : 2 ≤ (Phrase.node .segment (p :: ps)).depth := by
      rw [Phrase.depth, Phrase.depthList]
      exact Nat.succ_le_succ ((Phrase.depth_pos p).trans (Nat.le_max_left _ _))
    exact deep.trans (Phrase.depth_le_depthList inside)

end

/-! ## Paths that are written -/

theorem writeTo_segmentPart (n : Nat) (t : Token) :
    writeTo n {} (segmentPart t) = segmentPart t := by
  cases t with
  | name w e => exact writeTo_of_tokens (by decide) fun q mem => ⟨_, List.mem_singleton.mp mem⟩
  | _ => exact writeTo_token _

theorem isPathPart_segmentPart (t : Token) : IsPathPart (segmentPart t) := by
  cases t with
  | name w e => exact ⟨rfl, List.cons_ne_nil _ _⟩
  | _ => trivial

theorem written_path {parts : List Phrase} (h : ∀ q ∈ parts, IsPathPart q) :
    written (.node .path parts) =
      .node .path (parts.map (writeTo (Phrase.depthList parts) {})) := by
  rw [written, Phrase.depth, writeTo_succ_node (by decide),
    attributesFirst_of_forall fun q mem => (h q mem).is_outerAttribute]

theorem written_path_append {parts : List Phrase} (h : ∀ q ∈ parts, IsPathPart q)
    (deep : 2 ≤ Phrase.depthList parts) (e e' e'' : Extent) (w : String) :
    written (.node .path (parts ++ (colonName e e' e'' w).map segmentPart)) =
      .node .path (parts.map (writeTo (Phrase.depthList parts) {}) ++
        (colonName e e' e'' w).map segmentPart) := by
  have all : ∀ q ∈ parts ++ (colonName e e' e'' w).map segmentPart, IsPathPart q := by
    intro q mem
    rcases List.mem_append.mp mem with mem | mem
    · exact h q mem
    · obtain ⟨t, -, rfl⟩ := List.mem_map.mp mem
      exact isPathPart_segmentPart t
  have same : Phrase.depthList (parts ++ (colonName e e' e'' w).map segmentPart) =
      Phrase.depthList parts := by
    rw [Phrase.depthList_append]
    exact Nat.max_eq_left deep
  have further : ((colonName e e' e'' w).map segmentPart).map
      (writeTo (Phrase.depthList parts) {}) = (colonName e e' e'' w).map segmentPart := by
    rw [List.map_map]
    exact List.map_congr_left fun t _ => writeTo_segmentPart _ t
  rw [written_path all, same, List.map_append, further]

/-! ## Whole paths -/

def readPathTokens (ts : List Token) : Except ParseError Phrase :=
  readPhrase (fun read => path read false) ts

theorem readPathTokens_eq_ok {p : Phrase} : readPathTokens us = .ok p ↔
    ∃ d, pathParts (reader (depth us)) false { rest := us } = .ok ((), d) ∧ d.rest = [] ∧
      d.leftover = none ∧ p = written (.node .path d.row.reverse) := by
  rw [readPathTokens, readPhrase, bind_eq_ok]
  constructor
  · rintro ⟨⟨_, row⟩, run, same⟩
    obtain ⟨x, whole, rest, leftover, rfl⟩ := runAll_eq_ok.mp run
    obtain ⟨d, parts, rfl⟩ := node_eq_ok.mp whole
    cases same
    exact ⟨d, parts, rest, leftover, rfl⟩
  · rintro ⟨d, run, rest, leftover, rfl⟩
    exact ⟨_, runAll_eq_ok.mpr ⟨_, node_eq_ok.mpr ⟨d, run, rfl⟩, rest, leftover, rfl⟩, rfl⟩

theorem sizeList_continued (h : Continued (colonName e e' e'' w) us vs) :
    Token.sizeList vs = Token.sizeList us + 3 := by
  induction h with
  | nil => rfl
  | last => rfl
  | cons t others ih => rw [Token.sizeList, Token.sizeList, ih, Nat.add_assoc]

/-- Tokens with a double colon and a word behind them are a path if and only if they are one by
themselves, and then the word is a segment more. -/
theorem readPathTokens_continued (word : IsSegment w)
    (h : Continued (colonName e e' e'' w) us vs) (some : us ≠ []) {p : Phrase} :
    readPathTokens vs = .ok p ↔ ∃ parts, readPathTokens us = .ok (.node .path parts) ∧
      p = .node .path (parts ++ (colonName e e' e'' w).map segmentPart) := by
  have size := sizeList_continued h
  have deep : 2 * (Token.sizeList vs + 1) ≤ depth us := by rw [depth]; omega
  have deep' : 2 * (Token.sizeList vs + 1) ≤ depth vs := by rw [depth]; omega
  have few : Token.sizeList us < Token.sizeList vs + 1 := by omega
  rw [readPathTokens_eq_ok]
  constructor
  · rintro ⟨d, run, rest, leftover, rfl⟩
    obtain ⟨x, alone, whole⟩ := pathParts_of_continued (c := { rest := us }) deep deep'
      (Nat.lt_succ_self _) h some run rest
    have again := pathParts_continued (c := { rest := us }) deep deep' few word h alone whole
    cases run.symm.trans again
    obtain ⟨own, segments⟩ := parts_of_pathParts alone
    refine ⟨_, readPathTokens_eq_ok.mpr ⟨x, alone, whole, leftover, (written_path own).symm⟩, ?_⟩
    rw [← written_path_append own segments, addSegment, List.reverse_append, List.reverse_reverse]
  · rintro ⟨parts, read, rfl⟩
    obtain ⟨d, alone, whole, leftover, same⟩ := readPathTokens_eq_ok.mp read
    obtain ⟨own, segments⟩ := parts_of_pathParts alone
    rw [written_path own] at same
    cases same
    refine ⟨_, pathParts_continued (c := { rest := us }) deep deep' few word h alone whole, whole,
      leftover, ?_⟩
    rw [← written_path_append own segments, addSegment, List.reverse_append, List.reverse_reverse]

theorem readPathTokens_colonName (word : IsSegment w) : readPathTokens (colonName e e' e'' w) =
    .ok (.node .path ((colonName e e' e'' w).map segmentPart)) := by
  refine readPathTokens_eq_ok.mpr ⟨addSegment e e' e'' w { rest := [] }, ?_, rfl, rfl, ?_⟩
  · refine pathParts_eq_ok.mpr ⟨_, .inl (link_eq_ok.mpr ⟨e, false, e', _, rfl,
      segment_run _ rfl word rfl⟩), run_bind_eq_ok.mpr ⟨false, _, ?_, rfl⟩⟩
    exact furtherSegment_eq_ok.mpr (.inr ⟨rfl, rfl, rfl⟩)
  · rw [addSegment, List.append_nil, List.reverse_reverse, written, writeTo_of_forall (by decide)]
    · exact fun q mem => by
        obtain ⟨t, -, rfl⟩ := List.mem_map.mp mem
        exact (isPathPart_segmentPart t).is_outerAttribute
    · exact fun q mem m => by
        obtain ⟨t, -, rfl⟩ := List.mem_map.mp mem
        exact writeTo_segmentPart m t

theorem readPathTokens_concat_group (delimiter : Delimiter) (body : List Token) (o cl : Extent) :
    (readPathTokens (us ++ [.group delimiter body o cl])).isOk = false := by
  refine Bool.eq_false_iff.mpr fun ok => ?_
  obtain ⟨p, read⟩ := isOk_iff.mp ok
  obtain ⟨d, run, rest, -⟩ := readPathTokens_eq_ok.mp read
  obtain ⟨front, vs, t, same, segment⟩ := endsSegment_of_pathParts
    (n := Token.sizeList (us ++ [.group delimiter body o cl]) + 1)
    (by rw [depth]; omega) (Nat.lt_succ_self _) run
  rw [rest] at same
  obtain ⟨-, last⟩ := List.append_inj' same rfl
  cases last
  cases segment

/-! ## Texts -/

theorem tokensOf_eq_ok {s : String} : tokensOf s = .ok us ↔ Lexer.tokens? s.toList = some us := by
  rw [tokensOf]
  cases Lexer.tokens? s.toList <;> simp

theorem readPath_of_tokensOf {s : String} (h : tokensOf s = .ok us) :
    readPath s = readPathTokens us := by
  rw [readPath, h]
  rfl

/-- Whether a double colon behind a text adds nothing to its tokens, as where the text ends in a
comment. -/
def SwallowsColons (s : String) : Prop := tokensOf (s ++ "::") = tokensOf s

theorem isAppendix_colons : Lexer.IsAppendix [':', ':'] := ⟨⟨_, rfl⟩, by decide⟩

theorem isAppendix_colonChars (plain : Identifier.isPlain w = true) :
    Lexer.IsAppendix (Lexer.colonChars [w]) := by
  have apart : ∀ x ∈ Lexer.enders, x ≠ ':' ∧ (Text.isAlphanumeric x || x == '_') = false := by
    decide +kernel
  refine ⟨⟨_, rfl⟩, fun x ender mem => ?_⟩
  have inside : x ∈ ':' :: ':' :: (w.toList ++ []) := mem
  obtain ⟨other, none⟩ := apart x ender
  rw [List.append_nil, List.mem_cons, List.mem_cons] at inside
  exact Identifier.notMem_of_isPlain plain none
    ((inside.resolve_left other).resolve_left other)

theorem continued_of_joined {tail before after : List Token} (h : Lexer.Joined before after) :
    Continued tail before.reverse (after.reverse ++ tail) := by
  obtain rfl | ⟨x, j, e, ts, rfl, rfl⟩ := h
  · have whole := (show Continued tail [] tail from .nil).append_left after.reverse
    rwa [List.append_nil] at whole
  · rw [List.reverse_cons, List.reverse_cons, List.append_assoc]
    exact (Continued.last x j true e).append_left ts.reverse

theorem length_of_joined {before after : List Token} (h : Lexer.Joined before after) :
    after.length = before.length := by
  obtain rfl | ⟨x, j, e, ts, rfl, rfl⟩ := h <;> rfl

/-- What the tokens of a text are where a double colon and a name are behind it. -/
inductive ReadsBehind (s : String) (w : String) : Prop
  /-- The text swallows them: it is not read at all, or ends in a comment. -/
  | swallowed (colons : SwallowsColons s) (whole : tokensOf (s ++ "::" ++ w) = tokensOf s)
      (comment : (tokensOf s).isOk = true → Lexer.EndsInComment s.toList)
  /-- They are behind the tokens of the text. -/
  | continued (us vs : List Token) (e e' e'' : Extent) (colons : ¬SwallowsColons s)
      (alone : tokensOf s = .ok us) (whole : tokensOf (s ++ "::" ++ w) = .ok vs)
      (behind : Continued (colonName e e' e'' w) us vs)
  /-- The text ends in documentation, which is no path. -/
  | documented (some : tokensOf s ≠ .ok []) (alone : (readPath s).isOk = false)
      (whole : (readPath (s ++ "::" ++ w)).isOk = false)

theorem isOk_readPath_of_endsInBrackets {s : String} {done : List Token}
    (brackets : Lexer.EndsInBrackets done) (tokens : tokensOf s = .ok done.reverse) :
    (readPath s).isOk = false := by
  obtain ⟨body, o, cl, ts, rfl⟩ := brackets
  rw [readPath_of_tokensOf tokens, List.reverse_cons]
  exact readPathTokens_concat_group _ _ _ _

/-- A double colon and a name behind a text go on behind the tokens of the text. -/
theorem exists_continued_of_joined {s : String} (plain : Identifier.isPlain w = true)
    {before after : List Token} {q : Position} (joined : Lexer.Joined before after)
    (read : Lexer.tokens? s.toList = Lexer.run (Lexer.colonChars [w]) q [] after) :
    ∃ e e' e'' vs, tokensOf s = .ok vs ∧ Continued (colonName e e' e'' w) before.reverse vs := by
  have words : ∀ v ∈ [w], Text.IsWord v.toList := by
    simpa using (Identifier.isName_of_isPlain plain).1
  obtain ⟨ts, run, segments⟩ := Lexer.run_colonChars words q after
  cases segments with
  | cons e e' e'' others =>
    cases others
    exact ⟨e, e', e'', _, tokensOf_eq_ok.mpr (read.trans run), continued_of_joined joined⟩

theorem readsBehind (s : String) (plain : Identifier.isPlain w = true) : ReadsBehind s w := by
  have colons : (s ++ "::").toList = s.toList ++ [':', ':'] := String.toList_append
  have name : (s ++ "::" ++ w).toList = s.toList ++ Lexer.colonChars [w] := by
    rw [String.toList_append, colons]
    simp [Lexer.colonChars]
  have word := Identifier.isName_of_isPlain plain
  cases Lexer.tokens?_append s.toList with
  | hidden why same =>
    have hides {t : String} {cs : List Char} (text : t.toList = s.toList ++ cs)
        (appendix : Lexer.IsAppendix cs) : tokensOf t = tokensOf s := by
      rw [tokensOf, text, same cs appendix, tokensOf]
    refine .swallowed (hides colons isAppendix_colons) (hides name (isAppendix_colonChars plain))
      fun ok => why.resolve_left fun none => ?_
    rw [tokensOf, none] at ok
    cases ok
  | shown q before alone more =>
    have reads {t : String} {cs : List Char} (text : t.toList = s.toList ++ cs)
        (appendix : Lexer.IsAppendix cs) :
        (∃ after, Lexer.Joined before after ∧ Lexer.tokens? t.toList = Lexer.run cs q [] after) ∨
          Lexer.EndsInBrackets before ∧ ∃ after, Lexer.EndsInBrackets after ∧
            Lexer.tokens? t.toList = some after.reverse := by
      rw [text]
      exact more cs appendix
    have front : tokensOf s = .ok before.reverse := tokensOf_eq_ok.mpr alone
    by_cases brackets : Lexer.EndsInBrackets before
    · have alone' := isOk_readPath_of_endsInBrackets brackets front
      have some : before.reverse ≠ [] := by
        obtain ⟨body, o, cl, ts, rfl⟩ := brackets
        simp
      refine .documented (fun none => some (Except.ok.inj (front.symm.trans none))) alone' ?_
      obtain ⟨after, joined, read⟩ | ⟨-, after, brackets', read⟩ :=
        reads name (isAppendix_colonChars plain)
      · obtain ⟨e, e', e'', vs, whole, behind⟩ := exists_continued_of_joined plain joined read
        refine Bool.eq_false_iff.mpr fun ok => ?_
        obtain ⟨p, path⟩ := isOk_iff.mp ok
        rw [readPath_of_tokensOf whole, readPathTokens_continued (.inl word.2) behind some] at path
        obtain ⟨parts, path, -⟩ := path
        rw [readPath_of_tokensOf front, path] at alone'
        cases alone'
      · exact isOk_readPath_of_endsInBrackets brackets' (tokensOf_eq_ok.mpr read)
    · obtain ⟨done, joined, read⟩ := (reads colons isAppendix_colons).resolve_right fun h =>
        brackets h.1
      obtain ⟨after, joined', read'⟩ := (reads name (isAppendix_colonChars plain)).resolve_right
        fun h => brackets h.1
      obtain ⟨e, e', e'', vs, whole, behind⟩ := exists_continued_of_joined plain joined' read'
      refine .continued before.reverse vs e e' e'' (fun swallows => ?_) front whole behind
      have same := tokensOf_eq_ok.mp (swallows.trans front)
      rw [read, Lexer.run_colon, Lexer.run_colon, Lexer.run] at same
      have length := congrArg List.length (Option.some.inj same)
      simp only [List.length_reverse, List.length_cons, length_of_joined joined] at length
      omega

theorem isOk_tokensOf_of_readPath {s : String} {p : Phrase} (read : readPath s = .ok p) :
    (tokensOf s).isOk = true := by
  obtain ⟨us, tokens, -⟩ := bind_eq_ok.mp read
  rw [tokens]
  rfl

theorem endsInComment_of_swallowsColons {s : String} (plain : Identifier.isPlain w = true)
    (swallows : SwallowsColons s) {p : Phrase} (read : readPath s = .ok p) :
    Lexer.EndsInComment s.toList := by
  cases readsBehind s plain with
  | swallowed colons whole comment => exact comment (isOk_tokensOf_of_readPath read)
  | continued us vs e e' e'' colons => exact absurd swallows colons
  | documented some alone whole =>
    rw [read] at alone
    cases alone

/-- A name behind a text that swallows it changes nothing. -/
theorem readPath_of_swallowsColons {s : String} (plain : Identifier.isPlain w = true)
    (swallows : SwallowsColons s) {p : Phrase} :
    readPath (s ++ "::" ++ w) = .ok p ↔ readPath s = .ok p := by
  cases readsBehind s plain with
  | swallowed colons whole comment => rw [readPath, readPath, whole]
  | continued us vs e e' e'' colons => exact absurd swallows colons
  | documented some alone whole =>
    constructor
    · intro read
      rw [read] at whole
      cases whole
    · intro read
      rw [read] at alone
      cases alone

/-- A text with a name behind it is a path if and only if the text is one by itself or has no
tokens. -/
theorem isOk_readPath_iff {s : String} (plain : Identifier.isPlain w = true)
    (apart : ¬SwallowsColons s) : (readPath (s ++ "::" ++ w)).isOk = true ↔
      (readPath s).isOk = true ∨ tokensOf s = .ok [] := by
  have word : IsSegment w := .inl (Identifier.isName_of_isPlain plain).2
  cases readsBehind s plain with
  | swallowed colons whole comment => exact absurd colons apart
  | continued us vs e e' e'' colons alone whole behind =>
    rw [readPath_of_tokensOf whole, readPath_of_tokensOf alone, alone]
    by_cases none : us = []
    · subst none
      cases behind
      rw [readPathTokens_colonName word]
      exact iff_of_true rfl (.inr rfl)
    · rw [or_iff_left fun same => none (Except.ok.inj same), isOk_iff, isOk_iff]
      constructor
      · rintro ⟨p, read⟩
        obtain ⟨parts, read, -⟩ := (readPathTokens_continued word behind none).mp read
        exact ⟨_, read⟩
      · rintro ⟨p, read⟩
        obtain ⟨d, run, -, -, rfl⟩ := readPathTokens_eq_ok.mp read
        rw [written_path (parts_of_pathParts run).1] at read
        exact ⟨_, (readPathTokens_continued word behind none).mpr ⟨_, read, rfl⟩⟩
  | documented some alone whole =>
    rw [alone, whole]
    exact iff_of_false Bool.false_ne_true (not_or.mpr ⟨Bool.false_ne_true, some⟩)

/-- A name behind a text is a segment more. -/
theorem exists_parts_of_readPath {s : String} (plain : Identifier.isPlain w = true)
    (apart : ¬SwallowsColons s) {p : Phrase} (read : readPath (s ++ "::" ++ w) = .ok p) :
    ∃ parts e e' e'', p = .node .path (parts ++ (colonName e e' e'' w).map segmentPart) ∧
      (readPath s = .ok (.node .path parts) ∨ tokensOf s = .ok [] ∧ parts = []) := by
  have word : IsSegment w := .inl (Identifier.isName_of_isPlain plain).2
  cases readsBehind s plain with
  | swallowed colons whole comment => exact absurd colons apart
  | continued us vs e e' e'' colons alone whole behind =>
    rw [readPath_of_tokensOf whole] at read
    by_cases none : us = []
    · subst none
      cases behind
      rw [readPathTokens_colonName word] at read
      cases read
      exact ⟨[], e, e', e'', rfl, .inr ⟨alone, rfl⟩⟩
    · obtain ⟨parts, front, rfl⟩ := (readPathTokens_continued word behind none).mp read
      exact ⟨parts, e, e', e'', rfl, .inl ((readPath_of_tokensOf alone).trans front)⟩
  | documented some alone whole =>
    rw [read] at whole
    cases whole

end Grammar

namespace RenderContext
open Grammar

theorem traitPath_eq_ok {k : UnitKey} {p : Phrase} : traitPath k = .ok p ↔
    Identifier.isPlain k.container = true ∧ k.scope ≠ "" ∧
      readPath (k.scope ++ "::" ++ k.container) = .ok p := by
  have none : Identifier.isPlain "" = false := rfl
  rw [traitPath]
  split_ifs with container scope plain
  · rw [container, none]
    simp
  · simp [scope]
  · rw [Bool.not_eq_true'] at plain
    simp [plain]
  · rw [Bool.not_eq_true', Bool.not_eq_false] at plain
    rw [mapError_eq_ok]
    exact ⟨fun read => ⟨plain, scope, read⟩, fun h => h.2.2⟩

/-- A unit implements the trait that its key names. The path of the trait is read if and only if the
type is a plain identifier and the namespace is a path by itself, or has no tokens and swallows no
double colon; and it is the path of the namespace with the type as its last segment, unless the
namespace swallows the type, as it does only where it ends in a comment. -/
theorem traitPath_joins (k : UnitKey) :
    ((traitPath k).isOk = true ↔ Identifier.isPlain k.container = true ∧ k.scope ≠ "" ∧
      ((readPath k.scope).isOk = true ∨ tokensOf k.scope = .ok [] ∧ ¬SwallowsColons k.scope)) ∧
    (∀ p, traitPath k = .ok p →
      (SwallowsColons k.scope → readPath k.scope = .ok p ∧ Lexer.EndsInComment k.scope.toList) ∧
      (¬SwallowsColons k.scope → ∃ parts e e' e'',
        p = .node .path (parts ++ [.token (.mark ':' true e), .token (.mark ':' false e'),
          .node .segment [.token (.name k.container e'')]]) ∧
        (readPath k.scope = .ok (.node .path parts) ∨ tokensOf k.scope = .ok [] ∧ parts = []))) ∧
    ∀ (c : RenderContext) members tokens, c.unit k members = .ok tokens →
      ∃ p name, traitPath k = .ok p ∧ c.unitName k = .ok name ∧ tokens =
        attributeTokens (attributeBodies k) ++
          (structTokens name ++ implTokens p.tokens name members.flatten) := by
  refine ⟨?_, fun p path => ?_, fun c members tokens assembled => ?_⟩
  · rw [isOk_iff]
    constructor
    · rintro ⟨p, path⟩
      obtain ⟨plain, scope, read⟩ := traitPath_eq_ok.mp path
      refine ⟨plain, scope, ?_⟩
      by_cases swallows : SwallowsColons k.scope
      · exact .inl (isOk_iff.mpr ⟨p, (readPath_of_swallowsColons plain swallows).mp read⟩)
      · exact ((isOk_readPath_iff plain swallows).mp (isOk_iff.mpr ⟨p, read⟩)).imp_right
          fun none => ⟨none, swallows⟩
    · rintro ⟨plain, scope, reads⟩
      suffices read : ∃ p, readPath (k.scope ++ "::" ++ k.container) = .ok p from
        read.imp fun p read => traitPath_eq_ok.mpr ⟨plain, scope, read⟩
      by_cases swallows : SwallowsColons k.scope
      · obtain ⟨p, read⟩ := isOk_iff.mp (reads.resolve_right fun h => h.2 swallows)
        exact ⟨p, (readPath_of_swallowsColons plain swallows).mpr read⟩
      · exact isOk_iff.mp ((isOk_readPath_iff plain swallows).mpr (reads.imp_right And.left))
  · obtain ⟨plain, -, read⟩ := traitPath_eq_ok.mp path
    refine ⟨fun swallows => ?_, fun apart => exists_parts_of_readPath plain apart read⟩
    have alone := (readPath_of_swallowsColons plain swallows).mp read
    exact ⟨alone, endsInComment_of_swallowsColons plain swallows alone⟩
  · exact unit_eq_ok.mp assembled

/-- A comment in the namespace swallows the type. -/
example : (traitPath ⟨"crate //", "T"⟩).toOption.map Phrase.text = some "crate" := by decide +kernel

end RenderContext

end FormulaBinding
