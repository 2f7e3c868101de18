import FormulaBinding.Proofs.Generation.Delivery
import Mathlib.Data.List.TakeWhile

/-!
# Where units are written to

The name of a unit's file has a slash exactly if its module path is written with one. Without
slashes, writing units into a folder first makes directories where there are none on the way to it,
and after that touches no place but those of the units' names in the folder, also if it ends early.
-/

namespace FormulaBinding

namespace Text

theorem mem_splitColons {x : Char} (hx : x ≠ ':') (cs : List Char) :
    (∃ piece ∈ splitColons cs, x ∈ piece) ↔ x ∈ cs := by
  fun_induction splitColons cs with
  | case1 => simp
  | case2 cs ih => simp [hx, ih]
  | case3 c cs _ none => exact absurd none (splitColons_ne_nil cs)
  | case4 c cs _ piece pieces split ih =>
    rw [split] at ih
    simp only [List.mem_cons, exists_eq_or_imp] at ih ⊢
    rw [← ih, or_assoc]

theorem mem_dropWhile {p : Char → Bool} {x : Char} (hx : p x = false) (cs : List Char) :
    x ∈ cs.dropWhile p ↔ x ∈ cs := by
  refine ⟨fun mem => (List.dropWhile_suffix p).subset mem, fun mem => ?_⟩
  rw [← List.takeWhile_append_dropWhile (p := p) (l := cs), List.mem_append] at mem
  refine mem.resolve_left fun taken => ?_
  rw [List.mem_takeWhile_imp taken] at hx
  cases hx

theorem mem_trim {x : Char} (hx : isBlank x = false) (s : String) :
    x ∈ (trim s).toList ↔ x ∈ s.toList := by
  rw [trim, String.toList_ofList, trimRight, List.mem_reverse, mem_dropWhile hx, List.mem_reverse,
    trimLeft, mem_dropWhile hx]

end Text

namespace UnitKey

/-- A file name shows what a module path is written with, blanks, colons and points apart. -/
theorem mem_shownScope {x : Char} (colon : x ≠ ':') (point : x ≠ '.')
    (blank : Text.isBlank x = false) (k : UnitKey) :
    x ∈ k.shownScope ↔ x ∈ k.scope.toList := by
  rw [← Text.mem_splitColons colon k.scope.toList]
  constructor
  · intro mem
    obtain ⟨piece, shown, inside⟩ := List.mem_flatMap.mp mem
    obtain ⟨s, hs, rfl⟩ := List.mem_map.mp shown
    obtain ⟨trimmed, -⟩ := List.mem_filter.mp hs
    obtain ⟨t, ht, rfl⟩ := List.mem_map.mp trimmed
    obtain ⟨written, split, rfl⟩ := List.mem_map.mp ht
    have inside := (List.mem_cons.mp inside).resolve_left point
    rw [Text.mem_trim blank, String.toList_ofList] at inside
    exact ⟨written, split, inside⟩
  · rintro ⟨piece, split, inside⟩
    have kept : x ∈ (Text.trim (String.ofList piece)).toList := by
      rw [Text.mem_trim blank, String.toList_ofList]
      exact inside
    have filled : Text.trim (String.ofList piece) ≠ "" := by
      intro empty
      rw [empty] at kept
      exact List.not_mem_nil kept
    have shown : Text.trim (String.ofList piece) ∈ k.shownSegments :=
      List.mem_filter.mpr ⟨List.mem_map_of_mem (List.mem_map_of_mem split), decide_eq_true filled⟩
    exact List.mem_flatMap.mpr
      ⟨_, List.mem_map_of_mem shown, List.mem_cons_of_mem _ kept⟩

/-- The name of a unit's file has a slash exactly if the module path is written with one. -/
theorem slash_mem_fileName_iff {k : UnitKey} (plain : '/' ∉ k.container.toList) :
    '/' ∈ k.fileName.toList ↔ '/' ∈ k.scope.toList := by
  have blank : Text.isBlank '/' = false := by decide
  have ending : '/' ∉ fileEnding.toList := by decide
  calc '/' ∈ k.fileName.toList
      ↔ '/' ∈ '.' :: k.fileName.toList := by simp
    _ ↔ '/' ∈ k.shownScope := by
        rw [toList_fileName]
        simp [plain, ending]
    _ ↔ '/' ∈ k.scope.toList := mem_shownScope (by decide) (by decide) blank k

theorem length_fileEnding_le (k : UnitKey) : fileEnding.length ≤ k.fileName.length := by
  have lengths := congrArg List.length k.toList_fileName
  simp only [List.length_append, List.length_cons, String.length_toList] at lengths
  omega

/-- The name of a unit's file is a name that leads somewhere else, and not back. -/
theorem fileName_ne (k : UnitKey) : k.fileName ≠ "" ∧ k.fileName ≠ "." ∧ k.fileName ≠ ".." := by
  have long := k.length_fileEnding_le
  have longer {s : String} (short : s.length < fileEnding.length) : k.fileName ≠ s := by
    rintro rfl
    omega
  exact ⟨longer (by decide), longer (by decide), longer (by decide)⟩

end UnitKey

namespace Directory

variable {d after : Directory} {place stop : List String} {names : List String}

theorem enter_filter (d : Directory) (place : List String) (names : FilePath) :
    d.enter place names.way = d.enter place names := by
  induction names generalizing place with
  | nil => rfl
  | cons name names ih =>
    by_cases still : FilePath.isStill name = true
    · rw [FilePath.way, List.filter_cons_of_neg (by simpa using still), enter, if_pos still]
      exact ih place
    · rw [FilePath.way, List.filter_cons_of_pos (by simpa using still), enter, enter,
        if_neg still, if_neg still]
      rw [FilePath.way] at ih
      split_ifs
      · exact ih _
      · rcases d.lookup place name with _ | _ | _ | _
        · rfl
        · rfl
        · rfl
        · exact ih _

/-- What is at a place is as before, or a directory was made where nothing was. -/
def Keeps (d after : Directory) (place : List String) : Prop :=
  after.find? place = d.find? place ∨ d.find? place = none ∧ after.find? place = some .directory

theorem Keeps.trans {e : Directory} (first : Keeps d e place) (second : Keeps e after place) :
    Keeps d after place := by
  rcases first with same | ⟨none, made⟩
  · rw [Keeps, ← same]
    exact second
  · rcases second with same | ⟨free, -⟩
    · exact .inr ⟨none, same.trans made⟩
    · rw [made] at free
      cases free

theorem Keeps.file_iff (h : Keeps d after place) {content : ByteArray} :
    after.find? place = some (.file content) ↔ d.find? place = some (.file content) := by
  rcases h with same | ⟨none, made⟩
  · rw [same]
  · rw [none, made]
    exact iff_of_false (by rintro ⟨⟩) (by rintro ⟨⟩)

/-- Whether a directory has become another one by making directories where there was nothing. -/
def OnlyMakes (d after : Directory) : Prop :=
  ∀ q, after.find? q = d.find? q ∨ d.find? q = none ∧ after.find? q = some .directory

theorem OnlyMakes.refl (d : Directory) : OnlyMakes d d := fun _ => .inl rfl

theorem OnlyMakes.trans {e : Directory} (first : OnlyMakes d e) (second : OnlyMakes e after) :
    OnlyMakes d after := fun q => Keeps.trans (first q) (second q)

theorem OnlyMakes.directory (h : OnlyMakes d after) (found : d.find? place = some .directory) :
    after.find? place = some .directory := by
  rcases h place with same | ⟨none, made⟩
  · exact same.trans found
  · exact made

theorem onlyMakes_put {name : String} (free : d.lookup place name = .ok none) :
    OnlyMakes d (d.put (place ++ [name]) .directory) := by
  intro q
  rw [find?_put d (by simp)]
  split_ifs with same
  · subst same
    rw [lookup] at free
    split_ifs at free
    exact .inr ⟨Except.ok.inj free, rfl⟩
  · exact .inl rfl

theorem OnlyMakes.lookup {name : String} (h : OnlyMakes d after)
    (found : d.lookup place name = .ok (some .directory)) :
    after.lookup place name = .ok (some .directory) := by
  rw [Directory.lookup] at found ⊢
  split_ifs at found ⊢
  rw [h.directory (Except.ok.inj found)]

/-- Making directories only makes directories, and where it succeeds the way can be gone. -/
theorem makeFrom_onlyMakes (d : Directory) (place names : List String) :
    OnlyMakes d (d.makeFrom place names).1 ∧
      ((d.makeFrom place names).2 = .ok () →
        ∃ stop, (d.makeFrom place names).1.enter place names = .ok stop) := by
  induction names generalizing d place with
  | nil => exact ⟨.refl d, fun _ => ⟨place, rfl⟩⟩
  | cons name names ih =>
    by_cases still : FilePath.isStill name = true
    · simp only [makeFrom, enter, still, if_true]
      exact ih d place
    by_cases up : name = ".."
    · simp only [makeFrom, enter, up, if_true]
      exact ih d place.dropLast
    have further {e : Directory} (makes : OnlyMakes d e)
        (found : e.lookup place name = .ok (some .directory)) :
        OnlyMakes d (e.makeFrom (place ++ [name]) names).1 ∧
          ((e.makeFrom (place ++ [name]) names).2 = .ok () → ∃ stop,
            (e.makeFrom (place ++ [name]) names).1.enter place (name :: names) = .ok stop) := by
      obtain ⟨others, way⟩ := ih e (place ++ [name])
      refine ⟨makes.trans others, fun ok => ?_⟩
      rw [enter, if_neg still, if_neg up, others.lookup found]
      exact way ok
    rw [makeFrom, if_neg still, if_neg up]
    rcases found : d.lookup place name with e | _ | content | _
    · exact ⟨.refl d, by rintro ⟨⟩⟩
    · by_cases last : names = ["."]
      · simp only [last, if_true]
        exact ⟨.refl d, by rintro ⟨⟩⟩
      · simp only [last, if_false]
        refine further (onlyMakes_put found) ?_
        rw [lookup] at found ⊢
        split_ifs at found ⊢
        rw [find?_put d (by simp), if_pos rfl]
    · exact ⟨.refl d, by rintro ⟨⟩⟩
    · exact further (.refl d) found

/-- The same of a whole path, which then leads to a place. -/
theorem makeAll_onlyMakes (d : Directory) (folder : FilePath) :
    OnlyMakes d (d.makeAll folder).1 ∧
      ((d.makeAll folder).2 = .ok () →
        ∃ stop, (d.makeAll folder).1.enter [] folder = .ok stop) := by
  rw [makeAll]
  cases folder.check with
  | error e => exact ⟨.refl d, by rintro ⟨⟩⟩
  | ok _ => exact makeFrom_onlyMakes d [] folder

end Directory

namespace SourceUnit

variable {folder : FilePath} {d after : Directory} {place : List String}

/-- Writing a unit touches no place but the one of its name in the folder, and the folder stays
where it is. -/
theorem deliver_confined {u : SourceUnit} (hu : u.HasPlainName) {delivery : Delivery}
    (entered : d.enter [] folder = .ok place)
    (h : u.deliver d folder = .ok (after, delivery)) :
    after.enter [] folder = .ok place ∧
      ∀ q, q ≠ place ++ [u.fileName] → after.find? q = d.find? q := by
  rcases (deliver_eq_ok h).2.2 with rfl | written
  · exact ⟨entered, fun _ _ => rfl⟩
  · rw [hu.pathIn_eq] at written
    obtain ⟨above, name, found, hs, -, way, -, -, free, rfl⟩ := Directory.write_cases written
    rw [Directory.split_concat _ hu.1] at hs
    cases hs
    rw [Directory.enter_filter, entered] at way
    cases way
    refine ⟨Directory.enter_put (by simp) free _ entered, fun q other => ?_⟩
    rw [Directory.find?_put d (by simp), if_neg other]

/-- Writing units touches no place but those of their names in the folder, also if it ends early. -/
theorem deliverAll_confined {us : List SourceUnit} (hus : ∀ u ∈ us, u.HasPlainName)
    (entered : d.enter [] folder = .ok place) {q : List String}
    (other : ∀ u ∈ us, q ≠ place ++ [u.fileName]) :
    (deliverAll folder us d).directory.find? q = d.find? q := by
  induction us generalizing d with
  | nil => rfl
  | cons u us ih =>
    rw [deliverAll]
    cases made : u.deliver d folder with
    | error e => rfl
    | ok result =>
      obtain ⟨next, delivery⟩ := result
      rw [List.forall_mem_cons] at hus other
      obtain ⟨stays, same⟩ := deliver_confined hus.1 entered made
      exact (ih hus.2 stays other.2).trans (same q other.1)

end SourceUnit

namespace Generator

/-- How far the units of a pass stay in the folder that they are written to. -/
structure Confined (units : List SourceUnit) : Prop where
  /-- No file has a name that is empty or that leads nowhere else or back. -/
  named : ∀ u ∈ units, u.fileName ≠ "" ∧ u.fileName ≠ "." ∧ u.fileName ≠ ".."
  /-- A file's name has a slash exactly if the module path of its trait is written with one. -/
  slash : ∀ u ∈ units, '/' ∈ u.fileName.toList ↔ '/' ∈ u.key.scope.toList
  /-- Without slashes directories are made on the way to the folder, where there was nothing, and
  then no place changes but those of the names in the folder, if it could be made. -/
  within : (∀ u ∈ units, '/' ∉ u.key.scope.toList) → ∀ d folder,
    Directory.OnlyMakes d (d.makeAll folder).1 ∧
      match (d.makeAll folder).2 with
      | .error _ => (SourceUnit.writeAll units d folder).directory = (d.makeAll folder).1
      | .ok () => ∃ place, (d.makeAll folder).1.enter [] folder = .ok place ∧
        ∀ q, (∀ u ∈ units, q ≠ place ++ [u.fileName]) →
          (SourceUnit.writeAll units d folder).directory.find? q = (d.makeAll folder).1.find? q

/-- The units of a pass stay in the folder as far as their module paths have no slashes. -/
theorem generate_confined (g : Generator) (ds : List Declaration) :
    Confined (g.generate ds).units := by
  have slash : ∀ u ∈ (g.generate ds).units,
      ('/' ∈ u.fileName.toList ↔ '/' ∈ u.key.scope.toList) := by
    intro u hu
    obtain ⟨name, plain⟩ := fileName_of_mem_units hu
    rw [name]
    exact UnitKey.slash_mem_fileName_iff (Identifier.notMem_of_isPlain plain (by decide))
  refine ⟨fun u hu => ?_, slash, fun free d folder => ?_⟩
  · rw [(fileName_of_mem_units hu).1]
    exact u.key.fileName_ne
  · obtain ⟨makes, way⟩ := Directory.makeAll_onlyMakes d folder
    refine ⟨makes, ?_⟩
    rw [SourceUnit.writeAll]
    rcases made : d.makeAll folder with ⟨start, outcome⟩
    rw [made] at way
    cases outcome with
    | error e => rfl
    | ok _ =>
      obtain ⟨place, entered⟩ := way rfl
      have plain : ∀ u ∈ (g.generate ds).units, u.HasPlainName := fun u hu =>
        hasPlainName_of_notMem hu fun mem => free u hu ((slash u hu).mp mem)
      exact ⟨place, entered, fun q other => SourceUnit.deliverAll_confined plain entered other⟩

end Generator

end FormulaBinding
