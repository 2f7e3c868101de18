import FormulaBinding.Proofs.Cache.Fingerprint
import FormulaBinding.Proofs.Cache.Persistence
import FormulaBinding.Proofs.Generation.Groups
import FormulaBinding.Proofs.Unit.Emission

/-!
# A cache does not show in the output

A cache is used by passes of several generators, and between them it is pruned, emptied, or saved
and loaded again. Unless two texts that were hashed on the way have the same digest, each pass gives
the output that it would have given without a cache.

The invariant is that an entry is what a fresh pass gives for some group with the entry's
fingerprint. A unit found in the cache then belongs to a group with the same text, and that text
determines what is generated.
-/

namespace FormulaBinding

/-- What is done with a cache. -/
inductive CacheStep where
  /-- A pass over declarations. -/
  | generate (g : AcceptedGenerator) (ds : List Declaration)
  /-- Drops what is not live. -/
  | prune (live : List String)
  /-- Puts an empty cache in its place. -/
  | clear
  /-- Saves the cache at a path and loads it from there. -/
  | reload (d : Directory) (path : FilePath) (shown : String)

namespace CacheStep

/-- A cache that was saved and loaded; where one of both fails, the cache at hand stays. -/
def reloaded (c : UnitCache) (d : Directory) (path : FilePath) (shown : String) : UnitCache :=
  match c.save d path with
  | .error _ => c
  | .ok d =>
    match UnitCache.load d path shown with
    | .error _ => c
    | .ok loaded => loaded

def cacheAfter (c : UnitCache) : CacheStep → UnitCache
  | generate g ds => (g.1.generateCached c ds).2
  | prune live => c.prune live
  | clear => {}
  | reload d path shown => reloaded c d path shown

def output? (c : UnitCache) : CacheStep → Option Output
  | generate g ds => some (g.1.generateCached c ds).1
  | _ => none

def outputs (c : UnitCache) : List CacheStep → List Output
  | [] => []
  | s :: ss => (s.output? c).toList ++ outputs (s.cacheAfter c) ss

def uncached? : CacheStep → Option Output
  | generate g ds => some (g.1.generate ds)
  | _ => none

/-- The bytes that a pass over a group hashes. -/
def bytesOf (g : Generator) (cs : List Candidate) : List UInt8 :=
  (fingerprintText g.configuration cs).toUTF8.toList

/-- The byte strings that a step hashes, one for each group. -/
def hashed : CacheStep → List (List UInt8)
  | generate g ds => (Candidate.groups (g.1.candidates ds)).map fun group => bytesOf g.1 group.2
  | _ => []

end CacheStep

/-- No two different ones of some byte strings have the same digest. -/
def CollisionFree (strings : List (List UInt8)) : Prop :=
  ∀ x ∈ strings, ∀ y ∈ strings, Digest.hex x = Digest.hex y → x = y

open CacheStep (bytesOf reloaded)

/-- Whether an entry is what a fresh pass gives for a group that was hashed, under the group's
fingerprint. -/
def IsGenerated (strings : List (List UInt8)) (e : String × UnitEntry) : Prop :=
  ∃ (g : AcceptedGenerator) (k : UnitKey) (cs : List Candidate),
    (cs ≠ [] ∧ ∀ c ∈ cs, c.key = k) ∧ bytesOf g.1 cs ∈ strings ∧
      e.1 = fingerprint g.1.configuration cs ∧ g.1.render k cs = .fresh e.2

/-- A group whose fingerprint an entry has is the group that the entry was generated for. -/
theorem IsGenerated.render_eq {strings : List (List UInt8)} (free : CollisionFree strings)
    {e : String × UnitEntry} (he : IsGenerated strings e) {g : Generator} (hg : g.IsAccepted)
    {k : UnitKey} {cs : List Candidate} (hcs : cs ≠ [] ∧ ∀ c ∈ cs, c.key = k)
    (hs : bytesOf g cs ∈ strings) (hk : e.1 = fingerprint g.configuration cs) :
    g.render k cs = .fresh e.2 := by
  obtain ⟨h, l, ds, ⟨hne, hl⟩, hds, hfp, hr⟩ := he
  have text : fingerprintText g.configuration cs = fingerprintText h.1.configuration ds :=
    toUTF8_toList_injective (free _ hs _ hds (hk.symm.trans hfp))
  obtain ⟨-, rfl⟩ := eq_of_fingerprintText_eq text
  -- The key is not hashed by itself: it is the key of the first candidate, and there is one.
  obtain ⟨c, hc⟩ := List.exists_mem_of_ne_nil cs hne
  have keys : k = l := (hcs.2 c hc).symm.trans (hl c hc)
  rw [Generator.render_eq_of_fingerprintText_eq hg h.2 text, keys, hr]

theorem Generator.fingerprint_of_render {g : Generator} {k : UnitKey} {cs : List Candidate}
    {e : UnitEntry} (h : g.render k cs = .fresh e) :
    e.unit.fingerprint = fingerprint g.configuration cs := by
  rw [render] at h
  split at h
  · rename_i entry hemit
    cases h
    exact (SourceUnit.emit_eq_ok hemit).2.1
  · cases h

theorem group_of_mem {cs : List Candidate} {group : UnitKey × List Candidate}
    (h : group ∈ Candidate.groups cs) : group.2 ≠ [] ∧ ∀ c ∈ group.2, c.key = group.1 := by
  have members := Candidate.eq_ofKey_of_mem_groups h
  rw [members]
  refine ⟨Candidate.ofKey_ne_nil (List.mem_map_of_mem h), ?_⟩
  intro c hc
  simpa using (List.mem_filter.mp hc).2

namespace UnitCache

theorem mem_of_find? {c : UnitCache} {key : String} {e : UnitEntry} (h : c.find? key = some e) :
    (key, e) ∈ c.entries := by
  obtain ⟨before, after, split, -⟩ := List.lookup_eq_some_iff.mp h
  rw [split]
  exact List.mem_append_right _ List.mem_cons_self

/-- The invariant of a cache: it is ordered, and a fresh pass gives each of its entries. -/
structure IsAuthentic (strings : List (List UInt8)) (c : UnitCache) : Prop where
  isOrdered : c.IsOrdered
  generated : ∀ e ∈ c.entries, IsGenerated strings e

variable {strings : List (List UInt8)} {c : UnitCache}

theorem isAuthentic_empty : IsAuthentic strings {} where
  isOrdered := List.Pairwise.nil
  generated := fun _ h => absurd h List.not_mem_nil

theorem IsAuthentic.prune (h : c.IsAuthentic strings) (live : List String) :
    (c.prune live).IsAuthentic strings where
  isOrdered := h.isOrdered.filter _
  generated := fun e he => h.generated e (List.mem_filter.mp he).1

theorem IsAuthentic.insert (h : c.IsAuthentic strings) {e : UnitEntry}
    (he : IsGenerated strings (e.unit.fingerprint, e)) : (c.insert e).IsAuthentic strings where
  isOrdered := pairwise_insertEntry _ _ h.isOrdered
  generated := by
    intro f hf
    rcases mem_insertEntry hf with rfl | hf
    · exact he
    · exact h.generated f hf

theorem IsAuthentic.insertAll (h : c.IsAuthentic strings) {es : List UnitEntry}
    (hes : ∀ e ∈ es, IsGenerated strings (e.unit.fingerprint, e)) :
    (es.foldl UnitCache.insert c).IsAuthentic strings := by
  induction es generalizing c with
  | nil => exact h
  | cons e es ih =>
    exact ih (h.insert (hes e List.mem_cons_self)) fun f hf => hes f (List.mem_cons_of_mem _ hf)

theorem IsAuthentic.reloaded (h : c.IsAuthentic strings) (d : Directory) (path : FilePath)
    (shown : String) : (reloaded c d path shown).IsAuthentic strings := by
  rw [CacheStep.reloaded]
  cases saved : c.save d path with
  | error _ => exact h
  | ok after =>
    simp only [load_save h.isOrdered saved]
    exact h

end UnitCache

namespace Generator

variable {strings : List (List UInt8)} {c : UnitCache} {g : Generator}

/-- A result with an authentic cache is a fresh one, or the entry that a fresh one would have. -/
theorem result_cases (free : CollisionFree strings) (hc : c.IsAuthentic strings)
    (hg : g.IsAccepted) {k : UnitKey} {cs : List Candidate} (hcs : cs ≠ [] ∧ ∀ c ∈ cs, c.key = k)
    (hs : bytesOf g cs ∈ strings) :
    g.result c k cs = g.render k cs ∨
      ∃ e, g.result c k cs = .found e ∧ g.render k cs = .fresh e := by
  rw [result]
  cases found : c.find? (fingerprint g.configuration cs) with
  | none => exact .inl rfl
  | some e =>
    have he := hc.generated _ (UnitCache.mem_of_find? found)
    exact .inr ⟨e, rfl, he.render_eq free hg hcs hs rfl⟩

theorem result_empty (k : UnitKey) (cs : List Candidate) : g.result {} k cs = g.render k cs := rfl

theorem results_eq_map (ds : List Declaration) :
    g.results c ds =
      (Candidate.groups (g.candidates ds)).map fun group => g.result c group.1 group.2 := rfl

/-- The output is made of the units and the diagnostics of results alone. -/
theorem outputOf_map_congr {α : Type} {as : List α} {f h : α → Result}
    (entries : ∀ a ∈ as, Result.entry? (f a) = Result.entry? (h a))
    (diagnostics : ∀ a ∈ as, (f a).diagnostics = (h a).diagnostics) :
    outputOf (as.map f) = outputOf (as.map h) := by
  have units : (as.map f).filterMap Result.entry? = (as.map h).filterMap Result.entry? := by
    rw [List.filterMap_map, List.filterMap_map]
    exact List.filterMap_congr entries
  have reports : (as.map f).flatMap Result.diagnostics = (as.map h).flatMap Result.diagnostics := by
    rw [List.flatMap_map, List.flatMap_map]
    exact List.flatMap_congr diagnostics
  rw [outputOf, outputOf, units, reports]

theorem outputOf_results (free : CollisionFree strings) (hc : c.IsAuthentic strings)
    (hg : g.IsAccepted) {ds : List Declaration}
    (hs : ∀ group ∈ Candidate.groups (g.candidates ds), bytesOf g group.2 ∈ strings) :
    outputOf (g.results c ds) = outputOf (g.results {} ds) := by
  rw [results_eq_map, results_eq_map]
  refine outputOf_map_congr ?_ ?_
  all_goals
    intro group hgroup
    rw [result_empty]
    rcases result_cases free hc hg (group_of_mem hgroup) (hs group hgroup) with h | ⟨e, h, hr⟩
    · rw [h]
    · rw [h, hr]
      rfl

theorem generateCached_output (free : CollisionFree strings) (hc : c.IsAuthentic strings)
    (hg : g.IsAccepted) {ds : List Declaration}
    (hs : ∀ group ∈ Candidate.groups (g.candidates ds), bytesOf g group.2 ∈ strings) :
    (g.generateCached c ds).1 = g.generate ds := by
  rw [generateCached, generate]
  split_ifs
  · rfl
  · exact outputOf_results free hc hg hs

theorem fresh_of_mem {ds : List Declaration} {e : UnitEntry}
    (he : e ∈ (g.results c ds).filterMap Result.fresh?) :
    ∃ group ∈ Candidate.groups (g.candidates ds), g.render group.1 group.2 = .fresh e := by
  obtain ⟨r, hr, hf⟩ := List.mem_filterMap.mp he
  rw [results_eq_map] at hr
  obtain ⟨group, hgroup, rfl⟩ := List.mem_map.mp hr
  refine ⟨group, hgroup, ?_⟩
  rw [result] at hf
  split at hf
  · cases hf
  · cases hrender : g.render group.1 group.2 with
    | found _ => simp [hrender, Result.fresh?] at hf
    | fresh f => simpa [hrender, Result.fresh?] using hf
    | failed _ => simp [hrender, Result.fresh?] at hf

theorem generateCached_isAuthentic (hc : c.IsAuthentic strings) (hg : g.IsAccepted)
    {ds : List Declaration}
    (hs : ∀ group ∈ Candidate.groups (g.candidates ds), bytesOf g group.2 ∈ strings) :
    (g.generateCached c ds).2.IsAuthentic strings := by
  rw [generateCached]
  split_ifs
  · exact hc
  · refine (hc.insertAll ?_).prune _
    intro e he
    obtain ⟨group, hgroup, hr⟩ := fresh_of_mem he
    exact ⟨⟨g, hg⟩, group.1, group.2, group_of_mem hgroup, hs group hgroup,
      fingerprint_of_render hr, hr⟩

end Generator

namespace CacheStep

variable {strings : List (List UInt8)} {c : UnitCache}

theorem bytesOf_mem_hashed {g : AcceptedGenerator} {ds : List Declaration}
    {group : UnitKey × List Candidate} (h : group ∈ Candidate.groups (g.1.candidates ds)) :
    bytesOf g.1 group.2 ∈ hashed (.generate g ds) :=
  List.mem_map_of_mem (f := fun group : UnitKey × List Candidate => bytesOf g.1 group.2) h

theorem cacheAfter_isAuthentic (hc : c.IsAuthentic strings) {s : CacheStep}
    (hs : s.hashed ⊆ strings) : (s.cacheAfter c).IsAuthentic strings := by
  cases s with
  | generate g ds =>
    exact Generator.generateCached_isAuthentic hc g.2 fun _ h => hs (bytesOf_mem_hashed h)
  | prune live => exact hc.prune live
  | clear => exact UnitCache.isAuthentic_empty
  | reload d path shown => exact hc.reloaded d path shown

theorem output?_eq (free : CollisionFree strings) (hc : c.IsAuthentic strings) {s : CacheStep}
    (hs : s.hashed ⊆ strings) : s.output? c = s.uncached? := by
  cases s with
  | generate g ds =>
    have same := Generator.generateCached_output free hc g.2 fun _ h => hs (bytesOf_mem_hashed h)
    rw [output?, uncached?, same]
  | prune _ => rfl
  | clear => rfl
  | reload _ _ _ => rfl

theorem outputs_of_isAuthentic (free : CollisionFree strings) (hc : c.IsAuthentic strings)
    {ss : List CacheStep} (hs : ∀ s ∈ ss, s.hashed ⊆ strings) :
    outputs c ss = ss.filterMap uncached? := by
  induction ss generalizing c with
  | nil => rfl
  | cons s ss ih =>
    have here : s.hashed ⊆ strings := hs s List.mem_cons_self
    have later : ∀ t ∈ ss, t.hashed ⊆ strings := fun t ht => hs t (List.mem_cons_of_mem _ ht)
    rw [outputs, output?_eq free hc here, ih (cacheAfter_isAuthentic hc here) later]
    cases h : s.uncached? with
    | none => rw [List.filterMap_cons_none h]; rfl
    | some o => rw [List.filterMap_cons_some h]; rfl

/-- From an empty cache, every pass of a run has the output that it has without a cache, unless two
byte strings that the run hashes collide. -/
theorem outputs_eq_uncached (ss : List CacheStep) (free : CollisionFree (ss.flatMap hashed)) :
    outputs {} ss = ss.filterMap uncached? := by
  refine outputs_of_isAuthentic free UnitCache.isAuthentic_empty ?_
  intro s hs x hx
  exact List.mem_flatMap.mpr ⟨s, hs, hx⟩

/-- A run in which a group is found in a cache that was loaded, and a pass with nothing eligible
comes after it was dropped. -/
def reloadedRun (g : AcceptedGenerator) (d : Declaration) : List CacheStep :=
  [.generate g [d], .reload {} ["cache.json"] "cache.json",
    .generate g [{ d with hasBody := true }, d], .prune [], .generate g [], .clear,
    .generate g [d]]

theorem outputs_eq_uncached_of_reloadedRun :
    let g := AcceptedGenerator.default
    let area : Declaration :=
      { name := "area", container := "Shape", scope := "crate", receiver := some .shared,
        parameters := [⟨"r", "f64"⟩], returnType := "f64", modifiers := ⟨.everyone, true, false⟩,
        annotations := [⟨"exprbind", "expression", [.literal "[r]*[r]"]⟩], hasBody := false,
        fixedShape := true }
    CollisionFree ((reloadedRun g area).flatMap hashed) ∧
      outputs {} (reloadedRun g area) = (reloadedRun g area).filterMap uncached? := by
  intro g area
  have free : CollisionFree ((reloadedRun g area).flatMap hashed) := by
    -- Every string that is hashed is that of the one candidate there is.
    let candidate : Candidate :=
      { name := "area", container := "Shape", scope := "crate", receiver := some .shared,
        parameters := [⟨"r", "f64"⟩], template := some "[r]*[r]", fixedShape := true }
    have first : g.1.candidates [area] = [candidate] := by decide +kernel
    have second : g.1.candidates [{ area with hasBody := true }, area] = [candidate] := by
      decide +kernel
    have third : g.1.candidates [] = [] := rfl
    have all : ∀ x ∈ (reloadedRun g area).flatMap hashed, x = bytesOf g.1 [candidate] := by
      simp [reloadedRun, hashed, first, second, third, Candidate.groups, Candidate.addToGroups]
    intro x hx y hy _
    rw [all x hx, all y hy]
  exact ⟨free, outputs_eq_uncached (reloadedRun g area) free⟩

end CacheStep

end FormulaBinding
