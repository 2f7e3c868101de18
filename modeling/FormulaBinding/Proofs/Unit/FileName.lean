import FormulaBinding.Unit.Key
import Mathlib.Data.List.Basic

/-!
# Names of files

A file name shows the segments of a module path without the blanks around them and without those
that are empty. So the file names of two keys are the same exactly if their traits have one name and
their module paths read the same in this way. Module paths that are written plainly are told apart.
-/

namespace FormulaBinding

namespace Text

theorem splitColons_ne_nil (cs : List Char) : splitColons cs ≠ [] := by
  fun_cases splitColons cs <;> simp

theorem intercalate_splitColons (cs : List Char) :
    [':', ':'].intercalate (splitColons cs) = cs := by
  fun_induction splitColons cs with
  | case1 => rfl
  | case2 cs ih =>
    obtain ⟨piece, pieces, split⟩ := List.exists_cons_of_ne_nil (splitColons_ne_nil cs)
    rw [split] at ih ⊢
    rw [List.intercalate_cons_cons, ih]
    rfl
  | case3 c cs _ none => exact absurd none (splitColons_ne_nil cs)
  | case4 c cs _ piece pieces split ih =>
    rw [split] at ih
    rw [List.intercalate_cons_cons_left, ih]

theorem joinSegments_segments (path : String) : joinSegments (segments path) = path := by
  have same : String.toList ∘ String.ofList = id := funext fun _ => String.toList_ofList
  rw [← String.toList_inj, joinSegments, segments, String.toList_intercalate, List.map_map, same,
    List.map_id]
  exact intercalate_splitColons path.toList

theorem point_intercalate {pieces : List (List Char)} (some : pieces ≠ []) :
    '.' :: ['.'].intercalate pieces = pieces.flatMap ('.' :: ·) := by
  induction pieces with
  | nil => exact absurd rfl some
  | cons piece pieces ih =>
    cases pieces with
    | nil => simp
    | cons next pieces =>
      rw [List.intercalate_cons_cons, List.flatMap_cons, ← ih (List.cons_ne_nil _ _)]
      simp

/-- What stands in front of the last point and what stands behind it. -/
theorem append_point_inj {xs ys as bs : List Char} (ha : '.' ∉ as) (hb : '.' ∉ bs) :
    xs ++ '.' :: as = ys ++ '.' :: bs ↔ xs = ys ∧ as = bs := by
  constructor
  · intro h
    rcases List.append_eq_append_iff.mp h with ⟨zs, hys, split⟩ | ⟨zs, hxs, split⟩
    · cases zs with
      | nil => exact ⟨by simpa using hys.symm, (List.cons_eq_cons.mp split).2⟩
      | cons z zs =>
        rw [(List.cons_eq_cons.mp split).2] at ha
        exact absurd (List.mem_append_right zs List.mem_cons_self) ha
    · cases zs with
      | nil => exact ⟨by simpa using hxs, (List.cons_eq_cons.mp split).2.symm⟩
      | cons z zs =>
        rw [(List.cons_eq_cons.mp split).2] at hb
        exact absurd (List.mem_append_right zs List.mem_cons_self) hb
  · rintro ⟨rfl, rfl⟩
    rfl

end Text

namespace UnitKey

variable {k l : UnitKey}

/-- The segments of a module path that the file name shows. -/
def shownSegments (k : UnitKey) : List String :=
  ((Text.segments k.scope).map Text.trim).filter (· ≠ "")

/-- A module path as the file name shows it, with a point in front of each segment. -/
def shownScope (k : UnitKey) : List Char := (k.shownSegments.map String.toList).flatMap ('.' :: ·)

theorem toList_fileName (k : UnitKey) :
    '.' :: k.fileName.toList =
      k.shownScope ++ '.' :: k.container.toList ++ fileEnding.toList := by
  have some : (k.shownSegments ++ [k.container]).map String.toList ≠ [] := by simp
  have name : k.fileName =
      String.intercalate "." (k.shownSegments ++ [k.container]) ++ fileEnding := rfl
  rw [name, String.toList_append, String.toList_intercalate, ← List.cons_append]
  have point : ".".toList = ['.'] := rfl
  rw [point, Text.point_intercalate some, List.map_append, List.flatMap_append]
  simp [shownScope]

/-- The file names of two keys are the same exactly if the names of the traits are the same and the
module paths read the same. -/
theorem fileName_eq_iff (hk : '.' ∉ k.container.toList) (hl : '.' ∉ l.container.toList) :
    k.fileName = l.fileName ↔ k.container = l.container ∧ k.shownScope = l.shownScope := by
  calc k.fileName = l.fileName
      ↔ '.' :: k.fileName.toList = '.' :: l.fileName.toList := by simp [String.toList_inj]
    _ ↔ k.shownScope ++ '.' :: k.container.toList = l.shownScope ++ '.' :: l.container.toList := by
        rw [toList_fileName, toList_fileName, List.append_left_inj]
    _ ↔ k.container = l.container ∧ k.shownScope = l.shownScope := by
        rw [Text.append_point_inj hk hl, String.toList_inj, and_comm]

example : fileName ⟨"crate :: plane", "Shape"⟩ = fileName ⟨"::crate::plane", "Shape"⟩ := by decide

/-- Whether a module path is written plainly: it is empty, or no segment is empty or has blanks
around it, or has a point or a slash. -/
def IsPlain (k : UnitKey) : Prop :=
  k.scope ≠ "" → ∀ s ∈ Text.segments k.scope,
    s ≠ "" ∧ Text.trim s = s ∧ '.' ∉ s.toList ∧ '/' ∉ s.toList

theorem shownScope_of_eq_empty (h : k.scope = "") : k.shownScope = [] := by
  rw [shownScope, shownSegments, h]
  decide

theorem IsPlain.shownScope_eq (h : k.IsPlain) (some : k.scope ≠ "") :
    k.shownScope = ((Text.segments k.scope).map String.toList).flatMap ('.' :: ·) := by
  have trimmed : (Text.segments k.scope).map Text.trim = Text.segments k.scope := by
    conv_rhs => rw [← List.map_id (Text.segments k.scope)]
    exact List.map_congr_left fun s hs => (h some s hs).2.1
  have filled : (Text.segments k.scope).filter (· ≠ "") = Text.segments k.scope :=
    List.filter_eq_self.mpr fun s hs => decide_eq_true (h some s hs).1
  rw [shownScope, shownSegments, trimmed, filled]

theorem map_segments_ne_nil (k : UnitKey) :
    (Text.segments k.scope).map String.toList ≠ [] := by
  simp [Text.segments, Text.splitColons_ne_nil]

theorem IsPlain.shownScope_eq_nil_iff (h : k.IsPlain) : k.shownScope = [] ↔ k.scope = "" := by
  constructor
  · intro none
    by_contra some
    rw [h.shownScope_eq some, ← Text.point_intercalate k.map_segments_ne_nil] at none
    cases none
  · exact shownScope_of_eq_empty

/-- Module paths that are written plainly are told apart by how they read. -/
theorem IsPlain.scope_eq (hk : k.IsPlain) (hl : l.IsPlain) (same : k.shownScope = l.shownScope) :
    k.scope = l.scope := by
  by_cases some : k.scope = ""
  · rw [some, hl.shownScope_eq_nil_iff.mp (same ▸ hk.shownScope_eq_nil_iff.mpr some)]
  have other : l.scope ≠ "" := fun none =>
    some (hk.shownScope_eq_nil_iff.mp (same ▸ hl.shownScope_eq_nil_iff.mpr none))
  have free {k : UnitKey} (h : k.IsPlain) (some : k.scope ≠ "") :
      ∀ s ∈ (Text.segments k.scope).map String.toList, '.' ∉ s := by
    intro s hs
    obtain ⟨t, ht, rfl⟩ := List.mem_map.mp hs
    exact (h some t ht).2.2.1
  rw [hk.shownScope_eq some, hl.shownScope_eq other,
    ← Text.point_intercalate k.map_segments_ne_nil,
    ← Text.point_intercalate l.map_segments_ne_nil] at same
  have segments := congrArg (List.splitOn '.') (List.cons_eq_cons.mp same).2
  rw [List.splitOn_intercalate _ (free hk some) k.map_segments_ne_nil,
    List.splitOn_intercalate _ (free hl other) l.map_segments_ne_nil] at segments
  have pieces := List.map_injective_iff.mpr (fun _ _ h => String.toList_inj.mp h) segments
  rw [← Text.joinSegments_segments k.scope, pieces, Text.joinSegments_segments]

theorem IsPlain.slash_notMem (h : k.IsPlain) (hk : '/' ∉ k.container.toList) :
    '/' ∉ k.fileName.toList := by
  intro mem
  have mem : '/' ∈ '.' :: k.fileName.toList := List.mem_cons_of_mem _ mem
  rw [toList_fileName, List.mem_append, List.mem_append] at mem
  rcases mem with (inScope | inContainer) | inEnding
  · by_cases some : k.scope = ""
    · rw [shownScope_of_eq_empty some] at inScope
      cases inScope
    rw [h.shownScope_eq some] at inScope
    obtain ⟨piece, hpiece, inPiece⟩ := List.mem_flatMap.mp inScope
    obtain ⟨s, hs, rfl⟩ := List.mem_map.mp hpiece
    rcases List.mem_cons.mp inPiece with point | inPiece
    · exact absurd point (by decide)
    · exact (h some s hs).2.2.2 inPiece
  · rcases List.mem_cons.mp inContainer with point | inContainer
    · exact absurd point (by decide)
    · exact hk inContainer
  · exact absurd inEnding (by decide)

end UnitKey

end FormulaBinding
