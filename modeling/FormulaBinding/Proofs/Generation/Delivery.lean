import FormulaBinding.Proofs.Cache.Persistence
import FormulaBinding.Proofs.Generation.Conservation
import FormulaBinding.Proofs.Identifier
import FormulaBinding.Proofs.Unit.FileName
import Mathlib.Data.String.Basic

/-!
# Units in a folder

Units with different file names are written to different places, so that after all of them were
written each is found as it was generated. The file names of two units are the same exactly if their
traits have one name and their module paths read the same without blanks and empty segments; module
paths that are written plainly keep units apart.
-/

namespace FormulaBinding

/-! ## Names in a folder -/

namespace FilePath

open String in
private theorem splitOnAux_slash (l m : List Char) (h : '/' ∉ m) :
    splitOnAux (ofList (l ++ m)) "/" 0 ⟨utf8Len l⟩ 0 [] = [ofList (l ++ m)] := by
  -- The search is behind the characters of `l` and still has those of `m` before it. None of them
  -- begins a separator, so the piece that starts at zero is never closed.
  induction m generalizing l with
  | nil =>
    have whole := extract_of_valid [] l []
    rw [splitOnAux, if_pos ((atEnd_of_valid l []).mpr rfl)]
    simpa using whole
  | cons c m ih =>
    have inside : ¬ Pos.Raw.atEnd (ofList (l ++ c :: m)) ⟨utf8Len l⟩ = true := fun he =>
      List.cons_ne_nil c m ((atEnd_of_valid l (c :: m)).mp he)
    have other : ¬ (Pos.Raw.get (ofList (l ++ c :: m)) ⟨utf8Len l⟩ ==
        Pos.Raw.get "/" 0) = true := by
      have slash : Pos.Raw.get "/" 0 = '/' := rfl
      rw [get_of_valid, slash, beq_iff_eq]
      exact fun he => h (he ▸ List.mem_cons_self)
    have next : Pos.Raw.next (ofList (l ++ c :: m)) (Pos.Raw.unoffsetBy ⟨utf8Len l⟩ 0) =
        ⟨utf8Len (l ++ [c])⟩ := by
      have step := next_of_valid l c m
      simpa [Pos.Raw.unoffsetBy] using step
    have rest := ih (l ++ [c]) fun he => h (List.mem_cons_of_mem c he)
    rw [splitOnAux, if_neg inside, if_neg other, next]
    simpa using rest

/-- A text without slashes is a path of one name. -/
theorem ofText_of_notMem {s : String} (h : '/' ∉ s.toList) : ofText s = [s] := by
  have pieces : s.splitOn "/" = [s] := by
    have all := splitOnAux_slash [] s.toList h
    simpa [String.splitOn] using all
  have inside : ¬ s.startsWith "/" = true := by
    rw [String.startsWith_string_iff]
    intro start
    exact h (start.subset List.mem_cons_self)
  rw [ofText, pieces, if_neg inside]
  rfl

/-- The way to a folder, without the names that lead nowhere else. -/
def way (folder : FilePath) : FilePath := folder.filter (!isStill ·)

theorem append_ofText {s : String} (h : '/' ∉ s.toList) (folder : FilePath) :
    folder.append (ofText s) = folder.way ++ [s] := by
  rw [ofText_of_notMem h, append, if_neg]
  · rfl
  · intro he
    rw [List.head?_cons, Option.some.injEq] at he
    exact h (by rw [he, outside]; exact List.mem_cons_self)

end FilePath

namespace Directory

theorem split_concat (way : FilePath) {name : String} (h : name ≠ "") :
    split (way ++ [name]) = (way, name, false) := by
  have slash : ((way ++ [name]).getLast? == some "") = false := by simpa using h
  rw [split, slash]
  simp

/-- Writing a file changes nothing about the other files beside it. -/
theorem read_write_beside {d after : Directory} {way : FilePath} {name other : String}
    {content : ByteArray} (h : d.write (way ++ [name]) content = .ok after) (hn : name ≠ "")
    (ho : other ≠ "") (different : other ≠ name) :
    after.read (way ++ [other]) = d.read (way ++ [other]) := by
  obtain ⟨above, last, place, hs, -, entered, -, -, free, rfl⟩ := write_cases h
  rw [split_concat way hn] at hs
  cases hs
  have hp : place ++ [name] ≠ [] := by simp
  have reentered := enter_put hp free content entered
  have same : (d.put (place ++ [name]) (.file content)).lookup place other =
      d.lookup place other := by
    have elsewhere : place ++ [other] ≠ place ++ [name] := by simpa using different
    rw [lookup, lookup, find?_put d hp, if_neg elsewhere]
  rw [read, read, split_concat way ho]
  simp only [entered, reentered, same, bind, Except.bind]

theorem readText_congr {d after : Directory} {path : FilePath}
    (h : after.read path = d.read path) : after.readText path = d.readText path := by
  rw [readText, readText, h]

theorem readText_write {d after : Directory} {path : FilePath} {text : String}
    (h : d.write path text.toUTF8 = .ok after) : after.readText path = .ok text := by
  rw [readText, read_write h]
  simp only [bind, Except.bind, Json.fromUTF8?_toUTF8]
  rfl

end Directory

/-! ## Writing units one after the other -/

namespace SourceUnit

variable {folder : FilePath} {d after : Directory}

def pathIn (u : SourceUnit) (folder : FilePath) : FilePath :=
  folder.append (FilePath.ofText u.fileName)

/-- A unit that was written is found at its path, and no other path was written to. -/
theorem deliver_eq_ok {u : SourceUnit} {delivery : Delivery}
    (h : u.deliver d folder = .ok (after, delivery)) :
    delivery.path = u.pathIn folder ∧ after.readText (u.pathIn folder) = .ok u.source ∧
      (after = d ∨ d.write (u.pathIn folder) u.source.toUTF8 = .ok after) := by
  have written {rewritten : Bool}
      (hw : (d.write (u.pathIn folder) u.source.toUTF8).map
        (·, (⟨u.pathIn folder, rewritten⟩ : Delivery)) = .ok (after, delivery)) :
      delivery.path = u.pathIn folder ∧ after.readText (u.pathIn folder) = .ok u.source ∧
        (after = d ∨ d.write (u.pathIn folder) u.source.toUTF8 = .ok after) := by
    cases made : d.write (u.pathIn folder) u.source.toUTF8 with
    | error e =>
      rw [made] at hw
      cases hw
    | ok next =>
      rw [made] at hw
      cases hw
      exact ⟨rfl, Directory.readText_write made, .inr rfl⟩
  rw [deliver] at h
  cases found : d.readText (u.pathIn folder) with
  | error e =>
    rw [pathIn] at found
    simp only [found] at h
    exact written h
  | ok text =>
    rw [pathIn] at found
    simp only [found] at h
    split_ifs at h with same
    · cases h
      exact ⟨rfl, same ▸ found, .inl rfl⟩
    · exact written h

/-- Whether the name of a unit's file is a single name of a path. -/
def HasPlainName (u : SourceUnit) : Prop := u.fileName ≠ "" ∧ '/' ∉ u.fileName.toList

theorem HasPlainName.pathIn_eq {u : SourceUnit} (h : u.HasPlainName) (folder : FilePath) :
    u.pathIn folder = folder.way ++ [u.fileName] := FilePath.append_ofText h.2 folder

/-- Writing a unit changes nothing about a file beside it that has another name. -/
theorem read_deliver {u v : SourceUnit} (hu : u.HasPlainName) (hv : v.HasPlainName)
    (different : v.fileName ≠ u.fileName) {delivery : Delivery}
    (h : u.deliver d folder = .ok (after, delivery)) :
    after.readText (v.pathIn folder) = d.readText (v.pathIn folder) := by
  rcases (deliver_eq_ok h).2.2 with rfl | written
  · rfl
  · rw [hu.pathIn_eq] at written
    rw [hv.pathIn_eq]
    exact Directory.readText_congr (Directory.read_write_beside written hu.1 hv.1 different)

variable {us : List SourceUnit} {deliveries : List Delivery}

/-- The first of several units that were written, and the others. -/
theorem deliverAll_cons_eq_ok {u : SourceUnit}
    (h : (deliverAll folder (u :: us) d).outcome = .ok deliveries) :
    ∃ next delivery rest, u.deliver d folder = .ok (next, delivery) ∧
      (deliverAll folder us next).outcome = .ok rest ∧ deliveries = delivery :: rest ∧
      (deliverAll folder (u :: us) d).directory = (deliverAll folder us next).directory := by
  rw [deliverAll] at h ⊢
  cases made : u.deliver d folder with
  | error e =>
    simp only [made] at h
    cases h
  | ok result =>
    obtain ⟨next, delivery⟩ := result
    simp only [made] at h
    cases others : (deliverAll folder us next).outcome with
    | error e =>
      rw [others] at h
      cases h
    | ok rest =>
      rw [others] at h
      exact ⟨next, delivery, rest, rfl, others, (Except.ok.inj h).symm, rfl⟩

/-- Writing units changes nothing about a file beside them that has another name than all. -/
theorem read_deliverAll {v : SourceUnit} (hv : v.HasPlainName) (hus : ∀ u ∈ us, u.HasPlainName)
    (different : v.fileName ∉ us.map fileName)
    (h : (deliverAll folder us d).outcome = .ok deliveries) :
    (deliverAll folder us d).directory.readText (v.pathIn folder) =
      d.readText (v.pathIn folder) := by
  induction us generalizing d deliveries with
  | nil => rfl
  | cons u us ih =>
    obtain ⟨next, delivery, rest, first, others, -, same⟩ := deliverAll_cons_eq_ok h
    rw [List.map_cons, List.mem_cons, not_or] at different
    have later := ih (fun w hw => hus w (List.mem_cons_of_mem u hw)) different.2 others
    rw [same, later]
    exact read_deliver (hus u List.mem_cons_self) hv different.1 first

theorem paths_deliverAll (h : (deliverAll folder us d).outcome = .ok deliveries) :
    deliveries.map Delivery.path = us.map (·.pathIn folder) := by
  induction us generalizing d deliveries with
  | nil =>
    cases h
    rfl
  | cons u us ih =>
    obtain ⟨next, delivery, rest, first, others, rfl, -⟩ := deliverAll_cons_eq_ok h
    rw [List.map_cons, List.map_cons, (deliver_eq_ok first).1, ih others]

/-- At the path of a unit there is a unit with the same file name. -/
theorem readText_deliverAll (hus : ∀ u ∈ us, u.HasPlainName)
    (h : (deliverAll folder us d).outcome = .ok deliveries) {u : SourceUnit} (hu : u ∈ us) :
    ∃ v ∈ us, v.fileName = u.fileName ∧
      (deliverAll folder us d).directory.readText (u.pathIn folder) = .ok v.source := by
  induction us generalizing d deliveries u with
  | nil => exact absurd hu List.not_mem_nil
  | cons w us ih =>
    obtain ⟨next, delivery, rest, first, others, -, same⟩ := deliverAll_cons_eq_ok h
    have plain : ∀ v ∈ us, v.HasPlainName := fun v hv => hus v (List.mem_cons_of_mem w hv)
    rw [same]
    by_cases again : u.fileName ∈ us.map fileName
    · -- A unit behind the first one has the name, and the last such unit stays.
      obtain ⟨v, hv, name⟩ := List.mem_map.mp again
      obtain ⟨x, hx, names, found⟩ := ih plain others hv
      have paths : u.pathIn folder = v.pathIn folder := by rw [pathIn, pathIn, name]
      exact ⟨x, List.mem_cons_of_mem w hx, names.trans name, paths ▸ found⟩
    · rcases List.mem_cons.mp hu with rfl | hu
      · refine ⟨u, List.mem_cons_self, rfl, ?_⟩
        rw [read_deliverAll (hus u List.mem_cons_self) plain again others,
          (deliver_eq_ok first).2.1]
      · exact absurd (List.mem_map_of_mem hu) again

/-- Units that were all written are all found exactly if those with one file name are one text. -/
theorem forall_readText_writeAll_iff (hus : ∀ u ∈ us, u.HasPlainName)
    (h : (writeAll us d folder).outcome = .ok deliveries) :
    deliveries.map Delivery.path = us.map (·.pathIn folder) ∧
      ((∀ u ∈ us, (writeAll us d folder).directory.readText (u.pathIn folder) = .ok u.source) ↔
        ∀ u ∈ us, ∀ v ∈ us, u.fileName = v.fileName → u.source = v.source) := by
  rw [writeAll] at h ⊢
  rcases made : d.makeAll folder with ⟨start, outcome⟩
  rw [made] at h
  cases outcome with
  | error e => cases h
  | ok _ =>
    refine ⟨paths_deliverAll h, ?_⟩
    constructor
    · intro found u hu v hv name
      have paths : u.pathIn folder = v.pathIn folder := by rw [pathIn, pathIn, name]
      have here := found u hu
      rw [paths, found v hv] at here
      exact (Except.ok.inj here).symm
    · intro same u hu
      obtain ⟨v, hv, name, found⟩ := readText_deliverAll hus h hu
      rw [same u hu v hv name.symm]
      exact found

end SourceUnit

/-! ## The units of a pass -/

namespace Generator

variable {g : Generator} {ds : List Declaration}

/-- The key of a unit names its file, and its trait has a plain name. -/
theorem fileName_of_mem_units {u : SourceUnit} (hu : u ∈ (g.generate ds).units) :
    u.fileName = u.key.fileName ∧ Identifier.isPlain u.key.container = true := by
  obtain ⟨reports, has⟩ := hasUnit_of_mem_units hu
  obtain ⟨tokens, assembled, emitted⟩ := bind_eq_ok.mp has.alone
  obtain ⟨trait, path, -⟩ := bind_eq_ok.mp assembled
  obtain ⟨source, -, emitted⟩ := bind_eq_ok.mp emitted
  refine ⟨?_, RenderContext.isPlain_of_traitPath path⟩
  exact congrArg (·.unit.fileName) (Except.ok.inj emitted).symm

theorem nodup_keys (g : Generator) (ds : List Declaration) :
    ((g.generate ds).units.map SourceUnit.key).Nodup := by
  by_cases none : (g.candidates ds).isEmpty = true
  · rw [generate, if_pos none]
    exact List.nodup_nil
  · exact nodup_of_increasing (conserves_of_candidates none).increasing

/-- What the file names of the units of a pass tell apart. -/
structure TellsUnitsApart (g : Generator) (ds : List Declaration) : Prop where
  /-- Two units have one file name exactly if their traits have one name and their module paths
  read the same. -/
  names : ∀ u ∈ (g.generate ds).units, ∀ v ∈ (g.generate ds).units,
    u.fileName = v.fileName ↔
      u.key.container = v.key.container ∧ u.key.shownScope = v.key.shownScope
  /-- Where file names have no slash, all units that were written are found exactly if those with
  one file name are one text. -/
  found : (∀ u ∈ (g.generate ds).units, '/' ∉ u.fileName.toList) →
    ∀ d folder deliveries,
      (SourceUnit.writeAll (g.generate ds).units d folder).outcome = .ok deliveries →
      deliveries.map Delivery.path = (g.generate ds).units.map (·.pathIn folder) ∧
        ((∀ u ∈ (g.generate ds).units,
            (SourceUnit.writeAll (g.generate ds).units d folder).directory.readText
              (u.pathIn folder) = .ok u.source) ↔
          ∀ u ∈ (g.generate ds).units, ∀ v ∈ (g.generate ds).units,
            u.fileName = v.fileName → u.source = v.source)
  /-- Where module paths are written plainly, all file names are different, and units that were
  written are found at different paths. -/
  plain : (∀ u ∈ (g.generate ds).units, u.key.IsPlain) →
    ((g.generate ds).units.map SourceUnit.fileName).Nodup ∧
      ∀ d folder deliveries,
        (SourceUnit.writeAll (g.generate ds).units d folder).outcome = .ok deliveries →
        (deliveries.map Delivery.path).Nodup ∧
          ∀ u ∈ (g.generate ds).units,
            (SourceUnit.writeAll (g.generate ds).units d folder).directory.readText
              (u.pathIn folder) = .ok u.source

theorem fileName_eq_iff_of_mem_units {u v : SourceUnit} (hu : u ∈ (g.generate ds).units)
    (hv : v ∈ (g.generate ds).units) :
    u.fileName = v.fileName ↔
      u.key.container = v.key.container ∧ u.key.shownScope = v.key.shownScope := by
  obtain ⟨nameU, plainU⟩ := fileName_of_mem_units hu
  obtain ⟨nameV, plainV⟩ := fileName_of_mem_units hv
  have point : (Text.isAlphanumeric '.' || '.' == '_') = false := by decide
  rw [nameU, nameV]
  exact UnitKey.fileName_eq_iff (Identifier.notMem_of_isPlain plainU point)
    (Identifier.notMem_of_isPlain plainV point)

theorem eq_of_fileName_eq {u v : SourceUnit} (hu : u ∈ (g.generate ds).units)
    (hv : v ∈ (g.generate ds).units) (plainU : u.key.IsPlain) (plainV : v.key.IsPlain)
    (same : u.fileName = v.fileName) : u = v := by
  obtain ⟨containers, scopes⟩ := (fileName_eq_iff_of_mem_units hu hv).mp same
  have keys : u.key = v.key := by
    rcases hk : u.key with ⟨scope, container⟩
    rw [UnitKey.mk.injEq, ← plainU.scope_eq plainV scopes, ← containers, hk]
    exact ⟨rfl, rfl⟩
  exact List.inj_on_of_nodup_map (nodup_keys g ds) hu hv keys

theorem hasPlainName_of_notMem {u : SourceUnit} (hu : u ∈ (g.generate ds).units)
    (h : '/' ∉ u.fileName.toList) : u.HasPlainName := by
  refine ⟨?_, h⟩
  rw [(fileName_of_mem_units hu).1]
  intro empty
  have chars := UnitKey.toList_fileName u.key
  rw [empty] at chars
  have lengths := congrArg List.length chars
  simp [UnitKey.fileEnding] at lengths
  omega

/-- The file names of units tell them apart as far as their module paths read differently. -/
theorem generate_tellsUnitsApart (g : Generator) (ds : List Declaration) :
    g.TellsUnitsApart ds := by
  constructor
  case names => exact fun u hu v hv => fileName_eq_iff_of_mem_units hu hv
  case found =>
    intro free d folder deliveries written
    exact SourceUnit.forall_readText_writeAll_iff
      (fun u hu => hasPlainName_of_notMem hu (free u hu)) written
  case plain =>
    intro plain
    have apart : ∀ u ∈ (g.generate ds).units, ∀ v ∈ (g.generate ds).units,
        u.fileName = v.fileName → u = v := fun u hu v hv =>
      eq_of_fileName_eq hu hv (plain u hu) (plain v hv)
    have names : ((g.generate ds).units.map SourceUnit.fileName).Nodup :=
      (List.Nodup.of_map _ (nodup_keys g ds)).map_on apart
    refine ⟨names, ?_⟩
    intro d folder deliveries written
    have slash : (Text.isAlphanumeric '/' || '/' == '_') = false := by decide
    have hus : ∀ u ∈ (g.generate ds).units, u.HasPlainName := by
      intro u hu
      obtain ⟨name, container⟩ := fileName_of_mem_units hu
      refine hasPlainName_of_notMem hu ?_
      rw [name]
      exact (plain u hu).slash_notMem (Identifier.notMem_of_isPlain container slash)
    obtain ⟨paths, found⟩ := SourceUnit.forall_readText_writeAll_iff hus written
    -- Paths in one folder differ in their names, and names tell the units.
    constructor
    · rw [paths]
      refine (List.Nodup.of_map _ names).map_on ?_
      intro u hu v hv same
      rw [(hus u hu).pathIn_eq, (hus v hv).pathIn_eq] at same
      exact apart u hu v hv (by simpa using same)
    · exact found.mpr fun u hu v hv same => congrArg SourceUnit.source (apart u hu v hv same)

end Generator

end FormulaBinding
