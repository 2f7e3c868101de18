import FormulaBinding.Proofs.Generation.Confinement
import Mathlib.Data.List.Forall2

/-!
# What writing units does

Units with different plain names are written into a folder one after the other. A unit's file is
touched exactly if it does not hold the unit's text already, and nothing else is. Where a unit cannot
be written, those in front of it are, and nothing behind is touched. Written once more, nothing is
written.
-/

namespace FormulaBinding

/-- A file in the folder may have the name. -/
structure FilePath.Names (folder : FilePath) (name : String) : Prop where
  free : FilePath.check (folder.way ++ [name]) = .ok ()
  leads : (isStill name || name == "..") = false
  short : ¬ nameLimit < name.utf8ByteSize

namespace Directory

variable {d after : Directory} {folder path : FilePath} {place : List String} {name : String}

theorem readText_eq_ok_iff {text : String} :
    d.readText path = .ok text ↔ d.read path = .ok text.toUTF8 := by
  constructor
  · intro h
    obtain ⟨content, read, h⟩ := bind_eq_ok.mp h
    cases decoded : String.fromUTF8? content with
    | none =>
      rw [decoded] at h
      cases h
    | some s =>
      rw [decoded] at h
      obtain rfl := Except.ok.inj h
      rw [String.fromUTF8?] at decoded
      split_ifs at decoded with valid
      obtain rfl := Option.some.inj decoded
      exact read
  · intro h
    rw [readText, h]
    simp only [bind, Except.bind, Json.fromUTF8?_toUTF8]
    rfl

theorem read_concat_eq_ok_iff (filled : name ≠ "") (entered : d.enter [] folder = .ok place)
    {content : ByteArray} :
    d.read (folder.way ++ [name]) = .ok content ↔
      folder.Names name ∧ d.find? (place ++ [name]) = some (.file content) := by
  have way : d.enter [] folder.way = .ok place := (enter_filter d [] folder).trans entered
  constructor
  · intro h
    rw [read, split_concat _ filled] at h
    obtain ⟨_, free, h⟩ := bind_eq_ok.mp h
    obtain ⟨place', way', h⟩ := bind_eq_ok.mp h
    obtain rfl := Except.ok.inj (way.symm.trans way')
    cases leads : FilePath.isStill name || name == ".." with
    | true =>
      rw [leads] at h
      cases h
    | false =>
      rw [leads] at h
      obtain ⟨found, looked, h⟩ := bind_eq_ok.mp h
      rw [lookup] at looked
      split_ifs at looked with long
      rw [Except.ok.inj looked]
      rcases found with _ | content' | _
      · cases h
      · cases h
        exact ⟨⟨free, leads, long⟩, rfl⟩
      · cases h
  · rintro ⟨⟨free, leads, short⟩, found⟩
    rw [read, split_concat _ filled, free]
    simp only [bind, Except.bind, way, leads, lookup, short, if_false, found]
    rfl

/-- Where the way can be gone, no directory has to be made. -/
theorem makeFrom_of_enter {names : List String} {start stop : List String}
    (h : d.enter start names = .ok stop) : d.makeFrom start names = (d, .ok ()) := by
  induction names generalizing start with
  | nil => rfl
  | cons name names ih =>
    rw [enter] at h
    rw [makeFrom]
    by_cases still : FilePath.isStill name = true
    · rw [if_pos still] at h ⊢
      exact ih h
    rw [if_neg still] at h ⊢
    by_cases up : name = ".."
    · rw [if_pos up] at h ⊢
      exact ih h
    rw [if_neg up] at h ⊢
    rcases found : d.lookup start name with _ | _ | _ | _ <;> rw [found] at h
    · cases h
    · cases h
    · cases h
    · exact ih h

theorem makeAll_of_enter (entered : after.enter [] folder = .ok place)
    (made : (d.makeAll folder).2 = .ok ()) : after.makeAll folder = (after, .ok ()) := by
  rw [makeAll] at made ⊢
  cases free : folder.check with
  | error e =>
    rw [free] at made
    cases made
  | ok _ => exact makeFrom_of_enter entered

end Directory

namespace SourceUnit

variable {u : SourceUnit} {us : List SourceUnit} {folder : FilePath} {place : List String}
  {d next after : Directory} {delivery : Delivery} {deliveries : List Delivery}

/-- A unit's file is written exactly if it does not have the unit's text. -/
theorem rewritten_deliver_iff (h : u.deliver d folder = .ok (after, delivery)) :
    delivery.rewritten = true ↔ d.readText (u.pathIn folder) ≠ .ok u.source := by
  have written (hw : (d.write (u.pathIn folder) u.source.toUTF8).map
      (·, (⟨u.pathIn folder, true⟩ : Delivery)) = .ok (after, delivery)) :
      delivery.rewritten = true := by
    cases made : d.write (u.pathIn folder) u.source.toUTF8 with
    | error e =>
      rw [made] at hw
      cases hw
    | ok next =>
      rw [made] at hw
      cases hw
      rfl
  rw [deliver] at h
  cases found : d.readText (u.pathIn folder) with
  | error e =>
    rw [pathIn] at found
    simp only [found] at h
    exact iff_of_true (written h) (by rintro ⟨⟩)
  | ok text =>
    rw [pathIn] at found
    simp only [found] at h
    split_ifs at h with same
    · cases h
      exact iff_of_false (by rintro ⟨⟩) (not_not.mpr (congrArg _ same))
    · exact iff_of_true (written h) fun he => same (Except.ok.inj he)

/-- A unit whose file has its text already is not written. -/
theorem deliver_of_readText (h : d.readText (u.pathIn folder) = .ok u.source) :
    u.deliver d folder = .ok (d, ⟨u.pathIn folder, false⟩) := by
  rw [pathIn] at h
  simp only [deliver, h, if_true]
  rfl

theorem deliverAll_of_readText (h : ∀ u ∈ us, d.readText (u.pathIn folder) = .ok u.source) :
    deliverAll folder us d = ⟨d, .ok (us.map fun u => ⟨u.pathIn folder, false⟩)⟩ := by
  induction us with
  | nil => rfl
  | cons u us ih =>
    obtain ⟨here, others⟩ := List.forall_mem_cons.mp h
    simp only [deliverAll, deliver_of_readText here, ih others]
    rfl

/-- The delivery of a unit into a folder at a place: the unit's path, and that the file was written
exactly if it was not there or had another content. -/
structure IsDelivery (folder : FilePath) (place : List String) (d : Directory) (u : SourceUnit)
    (delivery : Delivery) : Prop where
  path : delivery.path = u.pathIn folder
  rewritten : delivery.rewritten = true ↔
    d.find? (place ++ [u.fileName]) ≠ some (.file u.source.toUTF8)

/-- Only the content of the unit's own file matters. -/
theorem IsDelivery.of_keeps (h : IsDelivery folder place next u delivery)
    (kept : Directory.Keeps d next (place ++ [u.fileName])) :
    IsDelivery folder place d u delivery :=
  ⟨h.path, h.rewritten.trans kept.file_iff.not⟩

/-- A unit's file has the unit's text, on its path and at its place. -/
structure IsFound (folder : FilePath) (place : List String) (d : Directory) (u : SourceUnit) :
    Prop where
  path : d.readText (u.pathIn folder) = .ok u.source
  place : d.find? (place ++ [u.fileName]) = some (.file u.source.toUTF8)

theorem readText_pathIn_iff (hu : u.HasPlainName) (entered : d.enter [] folder = .ok place) :
    d.readText (u.pathIn folder) = .ok u.source ↔ folder.Names u.fileName ∧
      d.find? (place ++ [u.fileName]) = some (.file u.source.toUTF8) := by
  rw [Directory.readText_eq_ok_iff, hu.pathIn_eq, Directory.read_concat_eq_ok_iff hu.1 entered]

/-- What is found stays found as long as the folder stays and the file is not touched. -/
theorem IsFound.of_keeps (h : IsFound folder place next u) (hu : u.HasPlainName)
    (stays : next.enter [] folder = .ok place) (entered : after.enter [] folder = .ok place)
    (kept : Directory.Keeps next after (place ++ [u.fileName])) :
    IsFound folder place after u := by
  obtain ⟨names, -⟩ := (readText_pathIn_iff hu stays).mp h.path
  have found := kept.file_iff.mpr h.place
  exact ⟨(readText_pathIn_iff hu entered).mpr ⟨names, found⟩, found⟩

/-- What writing one unit does to its own file. -/
theorem deliver_isDelivery (hu : u.HasPlainName) (entered : d.enter [] folder = .ok place)
    (h : u.deliver d folder = .ok (after, delivery)) :
    IsDelivery folder place d u delivery ∧ IsFound folder place after u := by
  obtain ⟨path, read, -⟩ := deliver_eq_ok h
  obtain ⟨stays, -⟩ := deliver_confined hu entered h
  obtain ⟨names, found⟩ := (readText_pathIn_iff hu stays).mp read
  refine ⟨⟨path, ?_⟩, read, found⟩
  rw [rewritten_deliver_iff h, ne_eq, readText_pathIn_iff hu entered]
  exact not_congr (and_iff_right names)

/-- Units were written into a folder at a place, and nothing else, apart from directories that were
made where nothing was. -/
structure Written (folder : FilePath) (place : List String) (us : List SourceUnit)
    (d after : Directory) : Prop where
  entered : after.enter [] folder = .ok place
  found : ∀ u ∈ us, IsFound folder place after u
  others : ∀ q, (∀ u ∈ us, q ≠ place ++ [u.fileName]) → Directory.Keeps d after q

theorem Written.nil (entered : d.enter [] folder = .ok place) : Written folder place [] d d :=
  ⟨entered, List.forall_mem_nil _, fun _ _ => .inl rfl⟩

theorem Written.of_onlyMakes (h : Written folder place us next after)
    (makes : Directory.OnlyMakes d next) : Written folder place us d after :=
  ⟨h.entered, h.found, fun q other => .trans (makes q) (h.others q other)⟩

theorem ne_place {v : SourceUnit} (different : v.fileName ≠ u.fileName) :
    place ++ [v.fileName] ≠ place ++ [u.fileName] := by simpa using different

theorem Written.cons (hu : u.HasPlainName) (unlike : ∀ v ∈ us, v.fileName ≠ u.fileName)
    (entered : d.enter [] folder = .ok place) (made : u.deliver d folder = .ok (next, delivery))
    (h : Written folder place us next after) : Written folder place (u :: us) d after := by
  obtain ⟨stays, same⟩ := deliver_confined hu entered made
  refine ⟨h.entered, List.forall_mem_cons.mpr ⟨?_, h.found⟩, fun q other => ?_⟩
  · have untouched : ∀ v ∈ us, place ++ [u.fileName] ≠ place ++ [v.fileName] := fun v hv =>
      (ne_place (unlike v hv)).symm
    exact (deliver_isDelivery hu entered made).2.of_keeps hu stays h.entered
      (h.others _ untouched)
  · obtain ⟨here, others⟩ := List.forall_mem_cons.mp other
    exact .trans (.inl (same q here)) (h.others q others)

/-- Units are written one after the other until one of them fails. Those in front of it are
delivered and found, and nothing else is touched. -/
theorem deliverAll_written (plain : ∀ u ∈ us, u.HasPlainName)
    (distinct : (us.map fileName).Nodup) (entered : d.enter [] folder = .ok place) :
    ∃ before behind deliveries, us = before ++ behind ∧
      List.Forall₂ (IsDelivery folder place d) before deliveries ∧
      Written folder place before d (deliverAll folder us d).directory ∧
      match (deliverAll folder us d).outcome with
      | .ok all => behind = [] ∧ all = deliveries
      | .error e => ∃ u rest, behind = u :: rest ∧
          u.deliver (deliverAll folder us d).directory folder = .error e := by
  induction us generalizing d with
  | nil => exact ⟨[], [], [], rfl, .nil, .nil entered, rfl, rfl⟩
  | cons u us ih =>
    obtain ⟨hu, plain⟩ := List.forall_mem_cons.mp plain
    obtain ⟨fresh, distinct⟩ := List.nodup_cons.mp distinct
    rw [deliverAll]
    cases made : u.deliver d folder with
    | error e => exact ⟨[], u :: us, [], rfl, .nil, .nil entered, u, us, rfl, made⟩
    | ok result =>
      obtain ⟨next, delivery⟩ := result
      obtain ⟨stays, same⟩ := deliver_confined hu entered made
      obtain ⟨first, -⟩ := deliver_isDelivery hu entered made
      obtain ⟨before, behind, deliveries, split, delivered, written, outcome⟩ :=
        ih plain distinct stays
      have unlike : ∀ v ∈ before, v.fileName ≠ u.fileName := fun v hv name =>
        fresh (name ▸ List.mem_map_of_mem (split ▸ List.mem_append_left behind hv))
      -- What is at the places of later units was there before the first one was written.
      have kept : ∀ v ∈ before, Directory.Keeps d next (place ++ [v.fileName]) := fun v hv =>
        .inl (same _ (ne_place (unlike v hv)))
      have earlier : List.Forall₂ (IsDelivery folder place d) before deliveries :=
        ((List.forall₂_and_left before deliveries).mpr ⟨kept, delivered⟩).imp
          fun _ _ h => h.2.of_keeps h.1
      refine ⟨u :: before, behind, delivery :: deliveries, congrArg (u :: ·) split,
        .cons first earlier, written.cons hu unlike entered made, ?_⟩
      rcases ended : deliverAll folder us next with ⟨after, e | all⟩
      · rw [ended] at outcome
        simpa only [ended, Except.map] using outcome
      · rw [ended] at outcome
        simpa only [ended, Except.map] using ⟨outcome.1, congrArg (delivery :: ·) outcome.2⟩

/-- What becomes of units that are written into a folder. -/
structure WritesExactly (us : List SourceUnit) (d : Directory) (folder : FilePath) : Prop where
  /-- Where all is well, each unit is found, all other files are as before, and the deliveries are
  those of the units in order, each of them of a file that is written exactly if it was not there or
  had another content. Written once more, the units have the same paths and no file is written. -/
  success : ∀ deliveries, (writeAll us d folder).outcome = .ok deliveries → ∃ place,
    Written folder place us d (writeAll us d folder).directory ∧
    List.Forall₂ (IsDelivery folder place d) us deliveries ∧
    writeAll us (writeAll us d folder).directory folder =
      ⟨(writeAll us d folder).directory, .ok (deliveries.map fun x => ⟨x.path, false⟩)⟩
  /-- Otherwise the folder cannot be made, and no file changes, or there is a unit that cannot be
  written, those in front of it are found, and all other files are as before. -/
  failure : ∀ e, (writeAll us d folder).outcome = .error e →
    (d.makeAll folder).2 = .error e ∧
      Directory.OnlyMakes d (writeAll us d folder).directory ∨
    ∃ place before u behind, us = before ++ u :: behind ∧
      u.deliver (writeAll us d folder).directory folder = .error e ∧
      Written folder place before d (writeAll us d folder).directory

theorem writeAll_of_written (h : Written folder place us d after)
    (made : (d.makeAll folder).2 = .ok ()) :
    writeAll us after folder = ⟨after, .ok (us.map fun u => ⟨u.pathIn folder, false⟩)⟩ := by
  rw [writeAll, Directory.makeAll_of_enter h.entered made]
  exact deliverAll_of_readText fun u hu => (h.found u hu).path

/-- Units with different plain names are written as far as they have to be, and nothing else is. -/
theorem writeAll_writesExactly (plain : ∀ u ∈ us, u.HasPlainName)
    (distinct : (us.map fileName).Nodup) (d : Directory) (folder : FilePath) :
    WritesExactly us d folder := by
  obtain ⟨makes, way⟩ := Directory.makeAll_onlyMakes d folder
  rcases hd : d.makeAll folder with ⟨start, made⟩
  rw [hd] at makes way
  cases made with
  | error e =>
    have ended : writeAll us d folder = ⟨start, .error e⟩ := by rw [writeAll, hd]
    constructor
    case success =>
      intro deliveries ok
      rw [ended] at ok
      cases ok
    case failure =>
      intro e' failed
      rw [ended] at failed ⊢
      cases failed
      exact .inl ⟨congrArg Prod.snd hd, makes⟩
  | ok _ =>
    obtain ⟨place, entered⟩ := way rfl
    have begun : writeAll us d folder = deliverAll folder us start := by rw [writeAll, hd]
    obtain ⟨before, behind, deliveries, split, delivered, written, outcome⟩ :=
      deliverAll_written plain distinct entered
    have written := written.of_onlyMakes makes
    rw [← begun] at written outcome
    constructor
    case success =>
      intro all ok
      have paths := paths_deliverAll (begun ▸ ok)
      rw [ok] at outcome
      obtain ⟨rfl, rfl⟩ := outcome
      rw [List.append_nil] at split
      subst split
      have delivered := delivered.imp fun u _ h => h.of_keeps (makes (place ++ [u.fileName]))
      have again : us.map (fun u => Delivery.mk (u.pathIn folder) false) =
          all.map fun x => ⟨x.path, false⟩ := by
        have same := congrArg (List.map (Delivery.mk · false)) paths.symm
        rwa [List.map_map, List.map_map] at same
      refine ⟨place, written, delivered, ?_⟩
      rw [writeAll_of_written written (congrArg Prod.snd hd), again]
    case failure =>
      intro e failed
      rw [failed] at outcome
      obtain ⟨u, rest, rfl, stuck⟩ := outcome
      exact .inr ⟨place, before, u, rest, split, stuck, written⟩

/-- A unit of a trait that nothing is known of but its name and its text. -/
def ofTrait (name source : String) : SourceUnit :=
  ⟨⟨"crate", name⟩, name ++ ".rs", "", [], source⟩

/-- A folder with the file of one unit, a file of another unit that is no text, and a directory that
has the name of a third unit's file. -/
def mixedFolder : Directory :=
  ⟨[(["out"], .directory), (["out", "A.rs"], .file "a".toUTF8),
    (["out", "B.rs"], .file ⟨#[0xff]⟩), (["out", "D.rs"], .directory)]⟩

/-- The file that is right is left alone, what is no text and what is missing is written, and the
unit whose name is taken by a directory ends the writing. -/
theorem writeAll_writesExactly_of_mixedFolder :
    (writeAll [ofTrait "A" "a", ofTrait "B" "b", ofTrait "C" "c"] mixedFolder ["out"]).outcome =
      .ok [⟨["out", "A.rs"], false⟩, ⟨["out", "B.rs"], true⟩, ⟨["out", "C.rs"], true⟩] ∧
    WritesExactly [ofTrait "A" "a", ofTrait "B" "b", ofTrait "C" "c"] mixedFolder ["out"] ∧
    (writeAll [ofTrait "B" "b", ofTrait "D" "d", ofTrait "C" "c"] mixedFolder ["out"]).outcome =
      .error .isDirectory ∧
    WritesExactly [ofTrait "B" "b", ofTrait "D" "d", ofTrait "C" "c"] mixedFolder ["out"] := by
  have path (name source : String) (free : '/' ∉ (ofTrait name source).fileName.toList) :
      FilePath.append ["out"] (FilePath.ofText (ofTrait name source).fileName) =
        ["out", (ofTrait name source).fileName] := FilePath.append_ofText free ["out"]
  have pathB := path "B" "b" (by decide)
  have pathC := path "C" "c" (by decide)
  refine ⟨?_, writeAll_writesExactly ?_ (by decide) _ _, ?_,
    writeAll_writesExactly ?_ (by decide) _ _⟩
  · simp only [writeAll, deliverAll, deliver, path "A" "a" (by decide), pathB, pathC]
    decide +kernel
  · unfold HasPlainName
    decide
  · simp only [writeAll, deliverAll, deliver, path "D" "d" (by decide), pathB, pathC]
    decide +kernel
  · unfold HasPlainName
    decide

end SourceUnit
end FormulaBinding
