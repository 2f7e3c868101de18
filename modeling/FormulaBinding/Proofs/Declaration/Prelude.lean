import FormulaBinding.Proofs.Declaration.Resolution
import FormulaBinding.Proofs.Identifier
import FormulaBinding.Proofs.Unit.FileName

/-!
# What means a marker

Where a trait is expanded in place, the only import is that of the marker's name. So the name alone
means the marker, and so does the full path of the marker, unless that path starts with the very
name: the import is then put in place of the first segment and makes the path longer. No other path
means the marker.
-/

namespace FormulaBinding

namespace Text

variable {piece cs : List Char} {pieces : List String} {w : String}

theorem splitColons_cons {c : Char} (h : c ≠ ':') (cs : List Char) :
    ∃ p ps, splitColons cs = p :: ps ∧ splitColons (c :: cs) = (c :: p) :: ps := by
  obtain ⟨p, ps, split⟩ := List.exists_cons_of_ne_nil (splitColons_ne_nil cs)
  refine ⟨p, ps, split, ?_⟩
  rw [splitColons, split]
  rintro rest ⟨⟩
  exact absurd rfl h

theorem splitColons_of_notMem (h : ':' ∉ piece) : splitColons piece = [piece] := by
  induction piece with
  | nil => rfl
  | cons c cs ih =>
    rw [List.mem_cons, not_or] at h
    obtain ⟨p, ps, split, longer⟩ := splitColons_cons (Ne.symm h.1) cs
    rw [ih h.2] at split
    obtain ⟨rfl, rfl⟩ := List.cons_eq_cons.mp split
    exact longer

theorem splitColons_append (h : ':' ∉ piece) (cs : List Char) :
    splitColons (piece ++ ':' :: ':' :: cs) = piece :: splitColons cs := by
  induction piece with
  | nil => rfl
  | cons c piece ih =>
    rw [List.mem_cons, not_or] at h
    obtain ⟨p, ps, split, longer⟩ := splitColons_cons (Ne.symm h.1) (piece ++ ':' :: ':' :: cs)
    rw [ih h.2] at split
    obtain ⟨rfl, rfl⟩ := List.cons_eq_cons.mp split
    exact longer

/-- Segments without colons are found again in their path. -/
theorem segments_joinSegments (some : pieces ≠ []) (free : ∀ p ∈ pieces, ':' ∉ p.toList) :
    segments (joinSegments pieces) = pieces := by
  have colons : "::".toList = [':', ':'] := rfl
  have split : splitColons (joinSegments pieces).toList = pieces.map String.toList := by
    rw [joinSegments, String.toList_intercalate, colons]
    induction pieces with
    | nil => exact absurd rfl some
    | cons p pieces ih =>
      have first : ':' ∉ p.toList := free p List.mem_cons_self
      cases pieces with
      | nil =>
        rw [List.map_singleton, List.intercalate_singleton]
        exact splitColons_of_notMem first
      | cons q pieces =>
        have later := ih (List.cons_ne_nil q pieces) fun r hr => free r (List.mem_cons_of_mem p hr)
        rw [List.map_cons, List.map_cons, List.intercalate_cons_cons, List.append_assoc]
        rw [List.map_cons] at later
        exact (splitColons_append first _).trans (congrArg _ later)
  rw [segments, split, List.map_map]
  exact (List.map_congr_left fun p _ => String.ofList_toList).trans pieces.map_id

theorem joinSegments_concat (some : pieces ≠ []) (w : String) :
    joinSegments (pieces ++ [w]) = joinSegments pieces ++ "::" ++ w := by
  induction pieces with
  | nil => exact absurd rfl some
  | cons p pieces ih =>
    cases pieces with
    | nil => rfl
    | cons q pieces =>
      have later := ih (List.cons_ne_nil q pieces)
      rw [← String.toList_inj] at later ⊢
      simp only [joinSegments, List.cons_append, String.toList_intercalate, List.map_cons,
        List.intercalate_cons_cons, String.toList_append] at later ⊢
      rw [later]
      simp only [List.append_assoc]

theorem colon_notMem_of_isWord (word : IsWord cs) : ':' ∉ cs := by
  have plain {v : List Char} (word : IsPlainWord v) : ':' ∉ v := by
    obtain ⟨c, rest, rfl, start, goes⟩ := word
    intro mem
    rcases List.mem_cons.mp mem with same | mem
    · exact ne_of_isNameStart start (by decide) same.symm
    · exact ne_of_isNameContinue (goes ':' mem) (by decide) rfl
  rcases word with word | ⟨v, rfl, word, -⟩
  · exact plain word
  · intro mem
    exact plain word (List.mem_of_ne_of_mem (by decide) (List.mem_of_ne_of_mem (by decide) mem))

end Text

namespace Imports

variable {scope name : String}

/-- What stands behind the last double colon has no colon. -/
theorem splitPath_within (free : ':' ∉ name.toList) :
    splitPath (scope ++ "::" ++ name) = (scope, name) := by
  refine splitPath_of_spells (.within fun within => free ?_)
  exact List.singleton_sublist.mp (List.cons_sublist_cons.mp within.sublist)

theorem splitPath_alone (free : ':' ∉ name.toList) : splitPath name = ("", name) := by
  refine splitPath_of_spells (.alone fun within => free ?_)
  exact within.subset List.mem_cons_self

end Imports

namespace Marker

variable {m : Marker} {segments : List String}

/-- The segments of the module path that a marker lives in. -/
def scopeSegments (m : Marker) : List String := if m.scope = "" then [] else Text.segments m.scope

theorem proper_of_make {scope name : String} (made : make scope name = .ok m) :
    Identifier.isPlain m.name = true ∧ isScope m.scope = true := by
  rw [make] at made
  split_ifs at made with proper
  cases made
  exact Bool.and_eq_true_iff.mp proper

theorem proper_of_ofPath {path : String} (h : ofPath path = .ok m) :
    Identifier.isPlain m.name = true ∧ isScope m.scope = true := by
  rw [ofPath] at h
  split at h <;> exact proper_of_make h

theorem text_of_scope_eq (h : m.scope = "") : m.text = m.name := by rw [text, joinPath, if_pos h]

theorem text_of_scope_ne (h : m.scope ≠ "") : m.text = m.scope ++ "::" ++ m.name := by
  rw [text, joinPath, if_neg h]

/-- The text of a marker is split where its two parts were joined. -/
theorem splitPath_text (colon : ':' ∉ m.name.toList) :
    Imports.splitPath m.text = (m.scope, m.name) := by
  by_cases h : m.scope = ""
  · rw [text_of_scope_eq h, Imports.splitPath_alone colon, h]
  · rw [text_of_scope_ne h, Imports.splitPath_within colon]

theorem eq_of_text_eq {n : Marker} {scope name scope' name' : String}
    (made : make scope name = .ok m) (made' : make scope' name' = .ok n) (h : m.text = n.text) :
    m = n := by
  have colon {m : Marker} {scope name : String} (made : make scope name = .ok m) :
      ':' ∉ m.name.toList := Identifier.notMem_of_isPlain (proper_of_make made).1 (by decide)
  have both := splitPath_text (colon made)
  rw [h, splitPath_text (colon made'), Prod.mk.injEq] at both
  cases m
  cases n
  rw [Marker.mk.injEq]
  exact ⟨both.1.symm, both.2.symm⟩

/-- The full path of a path that does not start with the marker's name: the path as it is. -/
theorem fullPath_ofMarker_of_ne {first : String} {rest : List String} (h : first ≠ m.name) :
    (Imports.ofMarker m).fullPath (first :: rest) = Text.joinSegments (first :: rest) := by
  have unbound : (Imports.ofMarker m).find? first = none := by
    simp [Imports.ofMarker, Imports.insert, Imports.find?, h]
  rw [Imports.fullPath, unbound]
  rfl

theorem fullPath_ofMarker_name (rest : List String) :
    (Imports.ofMarker m).fullPath (m.name :: rest) = Text.joinSegments (m.text :: rest) := by
  have bound : (Imports.ofMarker m).find? m.name = some m.text := by
    simp [Imports.ofMarker, Imports.insert, Imports.find?]
  rw [Imports.fullPath, bound]
  rfl

/-- A path of several segments whose first is not the marker's name means the marker if it is the
marker's full path. -/
theorem resolve_ofMarker_of_ne {first : String} {front : List String} {w : String}
    (h : first ≠ m.name) (words : ∀ s ∈ first :: front, Text.IsWord s.toList)
    (word : ':' ∉ w.toList) :
    (Imports.ofMarker m).resolve (first :: front ++ [w]) = (m.scope, m.name) ↔
      first :: front ++ [w] = m.scopeSegments ++ [m.name] := by
  have free (s : String) (mem : s ∈ first :: front) := Text.colon_notMem_of_isWord (words s mem)
  have some : first :: front ≠ [] := List.cons_ne_nil _ _
  have back := Text.segments_joinSegments some free
  have start : Text.joinSegments (first :: front) ≠ "" := by
    intro empty
    rw [empty] at back
    have here : first = "" := (List.cons_eq_cons.mp back).1.symm
    obtain ⟨c, cs, same, -⟩ := Lexer.exists_cons_of_isWord (words first List.mem_cons_self)
    rw [here] at same
    cases same
  rw [Imports.resolve, List.cons_append, fullPath_ofMarker_of_ne h, ← List.cons_append,
    Text.joinSegments_concat some, Imports.splitPath_within word, Prod.mk.injEq]
  constructor
  · rintro ⟨scope, rfl⟩
    rw [scopeSegments, if_neg (scope ▸ start), ← scope, back]
  · intro same
    obtain ⟨front, name⟩ := List.append_inj' same rfl
    rw [scopeSegments] at front
    split_ifs at front
    rw [front, Text.joinSegments_segments]
    exact ⟨rfl, List.singleton_inj.mp name⟩

theorem resolve_ofMarker_name (colon : ':' ∉ m.name.toList) :
    (Imports.ofMarker m).resolve [m.name] = (m.scope, m.name) := by
  have whole : Text.joinSegments [m.text] = m.text := rfl
  rw [Imports.resolve, fullPath_ofMarker_name, whole, splitPath_text colon]

theorem resolve_ofMarker_singleton {first : String} (h : first ≠ m.name)
    (word : ':' ∉ first.toList) : (Imports.ofMarker m).resolve [first] = ("", first) := by
  have whole : Text.joinSegments [first] = first := rfl
  rw [Imports.resolve, fullPath_ofMarker_of_ne h, whole, Imports.splitPath_alone word]

/-- The import makes a path longer that goes on behind the marker's name. -/
theorem resolve_ofMarker_name_concat (some : m.name ≠ "") (front : List String) {w : String}
    (word : ':' ∉ w.toList) :
    (Imports.ofMarker m).resolve (m.name :: front ++ [w]) ≠ (m.scope, m.name) := by
  have longer : m.scope.length < (Text.joinSegments (m.text :: front)).length := by
    have name : 0 < m.name.length :=
      Nat.pos_of_ne_zero fun none => some (String.length_eq_zero_iff.mp none)
    have text : m.scope.length < m.text.length := by
      by_cases h : m.scope = ""
      · rw [text_of_scope_eq h, h]
        exact name
      · rw [text_of_scope_ne h, String.length_append, String.length_append]
        omega
    cases front with
    | nil => exact text
    | cons v front =>
      have split : Text.joinSegments (m.text :: v :: front) =
          m.text ++ "::" ++ Text.joinSegments (v :: front) := by
        rw [← String.toList_inj]
        simp [Text.joinSegments, String.toList_intercalate]
      rw [split, String.length_append, String.length_append]
      omega
  intro same
  rw [Imports.resolve, List.cons_append, fullPath_ofMarker_name, ← List.cons_append,
    Text.joinSegments_concat (List.cons_ne_nil _ _), Imports.splitPath_within word] at same
  exact Nat.ne_of_gt longer (congrArg String.length (Prod.ext_iff.mp same).1)

/-- A path means the marker exactly if it is the marker's name alone, or the marker's full path and
does not start with the name. -/
theorem resolve_ofMarker_iff {scope name : String} (made : make scope name = .ok m)
    (words : ∀ s ∈ segments, Text.IsWord s.toList) :
    (Imports.ofMarker m).resolve segments = (m.scope, m.name) ↔
      segments = [m.name] ∨
        segments = m.scopeSegments ++ [m.name] ∧ m.scopeSegments.head? ≠ some m.name := by
  obtain ⟨plain, -⟩ := proper_of_make made
  have colon : ':' ∉ m.name.toList := Identifier.notMem_of_isPlain plain (by decide)
  have named : m.name ≠ "" := by
    intro empty
    rw [empty] at plain
    cases plain
  rcases List.eq_nil_or_concat segments with rfl | ⟨front, w, rfl⟩
  · have other : (Imports.ofMarker m).resolve [] = ("", "") := rfl
    rw [other]
    refine iff_of_false (fun same => named (Prod.ext_iff.mp same).2.symm) ?_
    rintro (same | ⟨same, -⟩)
    · cases same
    · exact List.append_ne_nil_of_right_ne_nil _ (List.cons_ne_nil _ _) same.symm
  rw [List.concat_eq_append] at words ⊢
  have word := Text.colon_notMem_of_isWord (words w List.mem_concat_self)
  cases front with
  | nil =>
    by_cases here : w = m.name
    · rw [here]
      exact iff_of_true (resolve_ofMarker_name colon) (.inl rfl)
    · rw [List.nil_append, resolve_ofMarker_singleton here word]
      refine iff_of_false (fun same => here (Prod.ext_iff.mp same).2) ?_
      rintro (same | ⟨same, -⟩)
      · exact here (List.singleton_inj.mp same)
      · have same : [] ++ [w] = m.scopeSegments ++ [m.name] := same
        exact here (List.singleton_inj.mp (List.append_inj' same rfl).2)
  | cons first front =>
    have alone : first :: front ++ [w] ≠ [m.name] := by simp
    by_cases here : first = m.name
    · subst here
      refine iff_of_false (resolve_ofMarker_name_concat named front word) ?_
      rintro (same | ⟨same, apart⟩)
      · exact alone same
      · rw [← (List.append_inj' same rfl).1] at apart
        exact apart rfl
    · have inside := fun s mem => words s (List.mem_append_left _ mem)
      rw [resolve_ofMarker_of_ne here inside word]
      constructor
      · intro same
        refine .inr ⟨same, ?_⟩
        rw [← (List.append_inj' same rfl).1]
        exact fun first => here (Option.some.inj first)
      · rintro (same | ⟨same, -⟩)
        · exact absurd same alone
        · exact same

/-- The name of a marker may be that of the module it lives in; then its full path is not found. -/
theorem resolve_ofMarker_of_sameName :
    make "expression" "expression" = .ok ⟨"expression", "expression"⟩ ∧
      (Imports.ofMarker ⟨"expression", "expression"⟩).resolve ["expression"] =
        ("expression", "expression") ∧
      (Imports.ofMarker ⟨"expression", "expression"⟩).resolve ["expression", "expression"] ≠
        ("expression", "expression") := by
  have made : make "expression" "expression" = .ok ⟨"expression", "expression"⟩ := by
    decide +kernel
  have word : Text.IsWord "expression".toList :=
    .inl ⟨'e', "xpression".toList, rfl, by decide, by decide⟩
  refine ⟨made, ?_, ?_⟩
  · exact (resolve_ofMarker_iff made (by simpa using word)).mpr (.inl rfl)
  · rw [ne_eq, resolve_ofMarker_iff made (by simpa using word)]
    decide

end Marker

end FormulaBinding
