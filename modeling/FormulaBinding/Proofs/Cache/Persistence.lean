import FormulaBinding.Cache.Basic
import FormulaBinding.Proofs.Json.Coding
import FormulaBinding.Proofs.Success

/-!
# A saved cache is loaded again

A file that was written holds what was written, and the bytes of an ordered cache are read as the
cache. Together a cache survives being saved and loaded. Whatever is loaded is ordered again, so it
survives as well.
-/

namespace FormulaBinding

namespace Directory

theorem find?_put (d : Directory) {place : List String} (hp : place ≠ []) (node : FileNode)
    (other : List String) :
    (d.put place node).find? other = if other = place then some node else d.find? other := by
  have kept : (d.nodes.filter (·.1 ≠ place)).lookup other =
      if other = place then none else d.nodes.lookup other := by
    induction d.nodes with
    | nil => simp
    | cons n nodes ih =>
      by_cases hn : n.1 = place
      · rw [List.filter_cons_of_neg (by simpa using hn), ih, List.lookup_cons]
        split_ifs with ho
        · rfl
        · have hne : (other == n.1) = false := by simpa [hn] using ho
          rw [hne]
      · rw [List.filter_cons_of_pos (by simpa using hn), List.lookup_cons, List.lookup_cons, ih]
        split_ifs with ho
        · have hne : (other == n.1) = false := by simpa [ho] using Ne.symm hn
          rw [hne]
        · rfl
  by_cases ho : other = place
  · subst ho
    simp [find?, put, hp]
  · have hne : (other == place) = false := by simpa using ho
    by_cases he : other = []
    · simp [find?, he, Ne.symm hp]
    · simp only [find?, put, he, if_false, List.lookup_cons, hne, kept, ho]

/-- A new file at a place that is no directory changes no way that could be gone before. -/
theorem enter_put {d : Directory} {place : List String} (hp : place ≠ [])
    (hd : d.find? place ≠ some .directory) (content : ByteArray) {names start stop : List String}
    (h : d.enter start names = .ok stop) :
    (d.put place (.file content)).enter start names = .ok stop := by
  induction names generalizing start with
  | nil => exact h
  | cons name names ih =>
    rw [enter] at h ⊢
    by_cases still : FilePath.isStill name = true
    · rw [if_pos still] at h ⊢
      exact ih h
    rw [if_neg still] at h ⊢
    by_cases up : name = ".."
    · rw [if_pos up] at h ⊢
      exact ih h
    rw [if_neg up] at h ⊢
    cases found : d.lookup start name with
    | error e => simp [found] at h
    | ok node =>
      rw [found] at h
      match node, h with
      | some .directory, h =>
        have other : start ++ [name] ≠ place := by
          rintro rfl
          rw [lookup] at found
          split_ifs at found
          exact hd (Except.ok.inj found)
        have same : (d.put place (.file content)).lookup start name = d.lookup start name := by
          rw [lookup, lookup, find?_put d hp, if_neg other]
        rw [same, found]
        exact ih h

/-- What it takes to write a file: the way to its place can be gone, and neither the name nor the
place is that of a directory. -/
theorem write_cases {d after : Directory} {path : FilePath} {content : ByteArray}
    (h : d.write path content = .ok after) :
    ∃ above name place, split path = (above, name, false) ∧ path.check = .ok () ∧
      d.enter [] above = .ok place ∧ (FilePath.isStill name || name == "..") = false ∧
      ¬ FilePath.nameLimit < name.utf8ByteSize ∧ d.find? (place ++ [name]) ≠ some .directory ∧
      after = d.put (place ++ [name]) (.file content) := by
  rcases hs : split path with ⟨above, name, slash⟩
  rw [write, hs] at h
  obtain ⟨_, hc, h⟩ := bind_eq_ok.mp h
  obtain ⟨place, he, h⟩ := bind_eq_ok.mp h
  cases bad : (slash || FilePath.isStill name || name == "..") with
  | true =>
    rw [bad] at h
    exact nomatch h
  | false =>
    rw [bad] at h
    obtain ⟨found, hl, h⟩ := bind_eq_ok.mp h
    rw [lookup] at hl
    split_ifs at hl with long
    cases slash with
    | true => simp at bad
    | false =>
      refine ⟨above, name, place, rfl, hc, he, by simpa using bad, long, ?_, ?_⟩
      · rw [Except.ok.inj hl]
        rintro rfl
        exact nomatch h
      · rcases found with _ | _ | _
        · exact (Except.ok.inj h).symm
        · exact (Except.ok.inj h).symm
        · exact nomatch h

/-- A file that was just written is read as it was written. -/
theorem read_write {d after : Directory} {path : FilePath} {content : ByteArray}
    (h : d.write path content = .ok after) : after.read path = .ok content := by
  obtain ⟨above, name, place, hs, hc, he, hn, hl, hd, rfl⟩ := write_cases h
  have hp : place ++ [name] ≠ [] := by simp
  have way := enter_put hp hd content he
  have found : (d.put (place ++ [name]) (.file content)).lookup place name =
      .ok (some (.file content)) := by
    rw [lookup, if_neg hl, find?_put d hp, if_pos rfl]
  rw [read, hs, hc]
  simp only [bind, Except.bind, way, hn, found]
  rfl

/-- Whether a file can be written does not depend on what is to be in it. -/
theorem write_of_write {d after : Directory} {path : FilePath} {content : ByteArray}
    (h : d.write path content = .ok after) (other : ByteArray) :
    ∃ after', d.write path other = .ok after' := by
  rcases hs : split path with ⟨above, name, slash⟩
  rw [write, hs] at h ⊢
  obtain ⟨checked, hc, h⟩ := bind_eq_ok.mp h
  obtain ⟨place, he, h⟩ := bind_eq_ok.mp h
  rw [hc]
  simp only [bind, Except.bind, he] at h ⊢
  cases bad : (slash || FilePath.isStill name || name == "..") with
  | true =>
    rw [bad] at h
    exact nomatch h
  | false =>
    rw [bad] at h
    simp only [Bool.false_eq_true, if_false] at h ⊢
    cases found : d.lookup place name with
    | error e =>
      rw [found] at h
      exact nomatch h
    | ok node =>
      rw [found] at h
      rcases node with _ | _ | _
      · exact ⟨_, rfl⟩
      · exact ⟨_, rfl⟩
      · exact nomatch h

end Directory

namespace UnitCache

/-- The fingerprints of a cache stand in increasing order. -/
def IsOrdered (c : UnitCache) : Prop := c.entries.Pairwise fun e f => e.1 < f.1

/-- An entry whose key is the greatest goes to the end. -/
theorem insertEntry_of_forall_lt {key : String} {e : UnitEntry}
    {entries : List (String × UnitEntry)} (h : ∀ f ∈ entries, f.1 < key) :
    insertEntry key e entries = entries ++ [(key, e)] := by
  induction entries with
  | nil => rfl
  | cons f entries ih =>
    have hf : f.1 < key := h f (by simp)
    have rest : ∀ g ∈ entries, g.1 < key := fun g hg => h g (by simp [hg])
    rw [insertEntry, if_neg (String.lt_asymm hf), if_neg (String.ne_of_lt hf).symm, ih rest,
      List.cons_append]

theorem mem_insertEntry {key : String} {e : UnitEntry} {entries : List (String × UnitEntry)}
    {f : String × UnitEntry} (h : f ∈ insertEntry key e entries) :
    f = (key, e) ∨ f ∈ entries := by
  induction entries with
  | nil => exact .inl (List.mem_singleton.mp h)
  | cons d entries ih =>
    rw [insertEntry] at h
    split_ifs at h with before same
    · exact List.mem_cons.mp h
    · rcases List.mem_cons.mp h with rfl | h
      · exact .inl rfl
      · exact .inr (List.mem_cons_of_mem _ h)
    · rcases List.mem_cons.mp h with rfl | h
      · exact .inr List.mem_cons_self
      · exact (ih h).imp_right (List.mem_cons_of_mem _)

theorem pairwise_insertEntry (key : String) (e : UnitEntry) {entries : List (String × UnitEntry)}
    (h : entries.Pairwise fun e f => e.1 < f.1) :
    (insertEntry key e entries).Pairwise fun e f => e.1 < f.1 := by
  induction entries with
  | nil => exact List.pairwise_singleton _ _
  | cons d entries ih =>
    obtain ⟨first, rest⟩ := List.pairwise_cons.mp h
    rw [insertEntry]
    split_ifs with before same
    · refine List.pairwise_cons.mpr ⟨?_, h⟩
      intro f hf
      rcases List.mem_cons.mp hf with rfl | hf
      · exact before
      · exact String.lt_trans before (first f hf)
    · exact List.pairwise_cons.mpr ⟨fun f hf => same ▸ first f hf, rest⟩
    · refine List.pairwise_cons.mpr ⟨?_, ih rest⟩
      intro f hf
      rcases mem_insertEntry hf with rfl | hf
      · have le : d.1 ≤ key := String.not_lt.mp before
        by_contra lt
        exact same (String.le_antisymm (String.not_lt.mp lt) le)
      · exact first f hf

private theorem foldlM_put (pre post : List (String × UnitEntry))
    (h : (pre ++ post).Pairwise fun e f => e.1 < f.1) :
    (post.map fun f => (f.1, f.2.toJson)).foldlM
        (fun c f => (UnitEntry.ofJson? f.2).map (c.put f.1)) (⟨pre⟩ : UnitCache) =
      some ⟨pre ++ post⟩ := by
  induction post generalizing pre with
  | nil => simp
  | cons f post ih =>
    have last : ∀ g ∈ pre, g.1 < f.1 := fun g hg =>
      (List.pairwise_append.mp h).2.2 g hg f (by simp)
    have next := ih (pre ++ [f]) (by simpa using h)
    rw [List.map_cons, List.foldlM_cons, UnitEntry.ofJson?_toJson]
    simp only [Option.map_some, put, insertEntry_of_forall_lt last]
    simpa using next

theorem isPlain_toJson (c : UnitCache) : c.toJson.isPlain = true := by
  have fields : Json.arePlainFields (c.entries.map fun f => (f.1, f.2.toJson)) = true := by
    rw [Json.arePlainFields_iff]
    intro f hf
    obtain ⟨e, -, rfl⟩ := List.mem_map.mp hf
    exact UnitEntry.isPlain_toJson e.2
  simp [toJson, Json.isPlain, Json.arePlainFields, fields]

theorem ofJson?_toJson {c : UnitCache} (h : c.IsOrdered) : ofJson? c.toJson = some c := by
  have read := foldlM_put [] c.entries h
  rw [ofJson?, toJson, Json.record?_object]
  · exact read
  · rfl
  · decide

theorem ofBytes?_text {c : UnitCache} (h : c.IsOrdered) : ofBytes? c.text.toUTF8 = some c := by
  rw [ofBytes?, text, Json.ofBytes?_text c.isPlain_toJson]
  exact ofJson?_toJson h

/-- An ordered cache that could be saved is loaded as it was. -/
theorem load_save {c : UnitCache} (h : c.IsOrdered) {d after : Directory} {path : FilePath}
    (hs : c.save d path = .ok after) (shown : String) : load after path shown = .ok c := by
  rw [load, Directory.read_write hs]
  simp only [ofBytes?_text h]

theorem isOrdered_empty : IsOrdered {} := List.Pairwise.nil

theorem IsOrdered.put {c : UnitCache} (h : c.IsOrdered) (key : String) (e : UnitEntry) :
    (c.put key e).IsOrdered := pairwise_insertEntry key e h

/-- The entries of an object are put in one by one, so their own order does not matter. -/
theorem isOrdered_of_foldlM {fields : List (String × Json)} {c c' : UnitCache} (h : c.IsOrdered)
    (read : fields.foldlM (fun c f => (UnitEntry.ofJson? f.2).map (c.put f.1)) c = some c') :
    c'.IsOrdered := by
  induction fields generalizing c with
  | nil => exact Option.some.inj read ▸ h
  | cons f fields ih =>
    rw [List.foldlM_cons] at read
    obtain ⟨next, entry, read⟩ := Option.bind_eq_some_iff.mp read
    obtain ⟨e, -, rfl⟩ := Option.map_eq_some_iff.mp entry
    exact ih (h.put f.1 e) read

theorem isOrdered_of_ofBytes? {bytes : ByteArray} {c : UnitCache}
    (h : ofBytes? bytes = some c) : c.IsOrdered := by
  obtain ⟨j, -, h⟩ := Option.bind_eq_some_iff.mp h
  obtain ⟨fields, -, h⟩ := Option.bind_eq_some_iff.mp h
  split at h
  · exact isOrdered_of_foldlM isOrdered_empty h
  · exact nomatch h

theorem isOrdered_of_load {d : Directory} {path : FilePath} {shown : String} {c : UnitCache}
    (h : load d path shown = .ok c) : c.IsOrdered := by
  unfold load at h
  split at h
  case h_1 => exact Except.ok.inj h ▸ isOrdered_empty
  case h_2 => exact nomatch h
  case h_3 =>
    split at h
    case h_1 c' read => exact Except.ok.inj h ▸ isOrdered_of_ofBytes? read
    case h_2 => exact nomatch h

/-- Whether a cache can be saved at a path, and is then loaded from there as it was. -/
def Survives (c : UnitCache) (d : Directory) (path : FilePath) : Prop :=
  ∃ after, c.save d path = .ok after ∧ after.read path = .ok c.text.toUTF8 ∧
    ∀ shown, load after path shown = .ok c

theorem IsOrdered.survives {c : UnitCache} (h : c.IsOrdered) {d after : Directory}
    {path : FilePath} {content : ByteArray} (writable : d.write path content = .ok after) :
    c.Survives d path := by
  obtain ⟨after', saved⟩ := Directory.write_of_write writable c.text.toUTF8
  exact ⟨after', saved, Directory.read_write saved, fun shown => load_save h saved shown⟩

/-- Where a file can be written, every cache survives being saved and loaded: any map from
fingerprints to entries, and whatever was loaded from any file. -/
theorem persistence_isLossless {d after : Directory} {path : FilePath} {content : ByteArray}
    (writable : d.write path content = .ok after) :
    (∀ c : UnitCache, c.IsOrdered → c.Survives d path) ∧
      ∀ (before : Directory) (source : FilePath) (shown : String) (c : UnitCache),
        load before source shown = .ok c → c.Survives d path :=
  ⟨fun _ ordered => ordered.survives writable,
    fun _ _ _ _ loaded => (isOrdered_of_load loaded).survives writable⟩

/-- Every kind of statement, receiver and diagnostic, with characters that are escaped and others
that are not in any alphabet. -/
def strangeEntry : UnitEntry where
  unit := {
    key := ⟨"crate::\"path\"", "Größe"⟩
    fileName := "a\\b\n"
    fingerprint := "\x00\x1f"
    members := [
      { container := "Größe", scope := "", name := "été", receiver := none, parameters := []
        body := [.noExpression] },
      { container := "数", scope := "::", name := "\t", receiver := some .shared
        parameters := [⟨"😀", "&'a [u8]"⟩]
        body := [.declareEvaluator "e" "[😀]\r" true, .bindParameter "e" "😀" "\x7f",
          .discard "/", .invoke "e" "\x08", .giveBack "\x0c"] },
      { container := "", scope := "", name := "", receiver := some .exclusive, parameters := []
        body := [] },
      { container := "", scope := "", name := "", receiver := some .owned, parameters := []
        body := [] }]
    source := "\"\\u0000\"" }
  diagnostics := [⟨.noCandidates, .warning, "\x01", none⟩, ⟨.missingTemplate, .warning, "ß", some ""⟩,
    ⟨.emission, .error, "", some "\""⟩]

theorem strangeEntry_survives :
    (({} : Directory).write ["cache.json"] .empty).isOk = true ∧
      (⟨[("\"\\", strangeEntry), ("ключ", strangeEntry)]⟩ : UnitCache).Survives {}
        ["cache.json"] ∧ ({} : UnitCache).Survives {} ["cache.json"] := by
  have writable : ({} : Directory).write ["cache.json"] .empty =
      .ok (({} : Directory).put ["cache.json"] (.file .empty)) := rfl
  obtain ⟨cached, loaded⟩ := persistence_isLossless writable
  refine ⟨rfl, cached _ (List.pairwise_pair.mpr (by decide)), loaded {} ["none"] "none" {} rfl⟩

end UnitCache

end FormulaBinding
