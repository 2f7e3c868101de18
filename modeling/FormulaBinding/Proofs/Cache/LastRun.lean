import FormulaBinding.Proofs.Cache.Transparency
import FormulaBinding.Proofs.Generation.Conservation

/-!
# What a cache holds after a pass

A pass drops from the cache what it did not use, and adds what it made. So the cache then holds the
units of the pass and nothing else, each with the reports of its group. Where nothing is eligible,
the pass ends before it comes to the cache, and what an earlier pass left there stays.
-/

namespace FormulaBinding

namespace UnitCache

variable {c : UnitCache}

/-- Whether every entry is found under the fingerprint of its own unit. -/
def IsKeyed (c : UnitCache) : Prop := ∀ f e, c.find? f = some e → e.unit.fingerprint = f

/-- Whether a cache holds exactly some entries, each under its fingerprint. -/
def Holds (c : UnitCache) (es : List UnitEntry) : Prop :=
  ∀ f e, c.find? f = some e ↔ e ∈ es ∧ e.unit.fingerprint = f

theorem find?_cons (k : String) (e : UnitEntry) (entries : List (String × UnitEntry))
    (f : String) :
    find? ⟨(k, e) :: entries⟩ f = if f = k then some e else find? ⟨entries⟩ f := by
  rw [find?, List.lookup_cons]
  by_cases h : f = k
  · rw [if_pos h, beq_iff_eq.mpr h]
  · rw [if_neg h, beq_eq_false_iff_ne.mpr h]
    rfl

theorem mem_keys_iff {f : String} : f ∈ c.keys ↔ ∃ e, c.find? f = some e := by
  obtain ⟨entries⟩ := c
  induction entries with
  | nil => exact iff_of_false List.not_mem_nil nofun
  | cons d entries ih =>
    obtain ⟨k, d⟩ := d
    rw [keys, List.map_cons, List.mem_cons, find?_cons]
    split_ifs with here
    · exact iff_of_true (.inl here) ⟨d, rfl⟩
    · exact (or_iff_right here).trans ih

theorem find?_insertEntry (key : String) (e : UnitEntry) (entries : List (String × UnitEntry))
    (f : String) :
    find? ⟨insertEntry key e entries⟩ f = if f = key then some e else find? ⟨entries⟩ f := by
  induction entries with
  | nil => rw [insertEntry, find?_cons]
  | cons d entries ih =>
    obtain ⟨k, d⟩ := d
    rw [insertEntry]
    by_cases before : key < k
    · rw [if_pos before, find?_cons]
    rw [if_neg before]
    by_cases same : key = k
    · rw [if_pos same, find?_cons, find?_cons, same]
      split_ifs <;> rfl
    · rw [if_neg same, find?_cons, ih, find?_cons]
      by_cases here : f = k
      · rw [if_pos here, if_pos here, if_neg (here ▸ Ne.symm same)]
      · rw [if_neg here, if_neg here]

theorem find?_insert (c : UnitCache) (e : UnitEntry) (f : String) :
    (c.insert e).find? f = if f = e.unit.fingerprint then some e else c.find? f :=
  find?_insertEntry _ e c.entries f

/-- Of entries with one fingerprint, the last one that was added is found. -/
theorem find?_insertAll (es : List UnitEntry) (c : UnitCache) (f : String) :
    (es.foldl UnitCache.insert c).find? f =
      (es.reverse.find? (·.unit.fingerprint = f)).or (c.find? f) := by
  induction es generalizing c with
  | nil => rfl
  | cons e es ih =>
    rw [List.foldl_cons, ih, find?_insert, List.reverse_cons, List.find?_append, Option.or_assoc]
    congr 1
    by_cases h : e.unit.fingerprint = f
    · simp [h]
    · simp [h, Ne.symm h]

theorem find?_prune (c : UnitCache) (live : List String) (f : String) :
    (c.prune live).find? f = if f ∈ live then c.find? f else none := by
  obtain ⟨entries⟩ := c
  induction entries with
  | nil => exact (ite_self none).symm
  | cons d entries ih =>
    obtain ⟨k, d⟩ := d
    rw [prune] at ih ⊢
    by_cases hk : k ∈ live
    · rw [List.filter_cons_of_pos (by simpa using hk), find?_cons, find?_cons, ih]
      by_cases here : f = k
      · rw [if_pos here, if_pos here, if_pos (here ▸ hk)]
      · rw [if_neg here, if_neg here]
    · rw [List.filter_cons_of_neg (by simpa using hk), ih, find?_cons]
      by_cases here : f = k
      · rw [if_neg (here ▸ hk), if_neg (here ▸ hk)]
      · rw [if_neg here]

theorem forall_notMem_keys_iff : (∀ f, f ∉ c.keys) ↔ c = {} := by
  constructor
  · intro h
    obtain ⟨entries⟩ := c
    cases entries with
    | nil => rfl
    | cons d entries => exact absurd List.mem_cons_self (h d.1)
  · rintro rfl _
    exact List.not_mem_nil

theorem holds_nil_iff : c.Holds [] ↔ c = {} := by
  rw [← forall_notMem_keys_iff]
  simp only [Holds, List.not_mem_nil, false_and, iff_false, mem_keys_iff, not_exists]

end UnitCache

namespace Generator

variable {g : Generator} {c : UnitCache} {ds : List Declaration}

/-- The units that a pass puts out, each with what is reported for its group. -/
def produced (g : Generator) (c : UnitCache) (ds : List Declaration) : List UnitEntry :=
  (g.results c ds).filterMap Result.entry?

/-- Whether entries with one fingerprint are one entry. -/
def Apart (es : List UnitEntry) : Prop :=
  ∀ e ∈ es, ∀ f ∈ es, e.unit.fingerprint = f.unit.fingerprint → e = f

theorem produced_of_isEmpty (h : (g.candidates ds).isEmpty = true) : g.produced c ds = [] := by
  rw [produced, results, List.isEmpty_iff.mp h]
  rfl

theorem units_generateCached (g : Generator) (c : UnitCache) (ds : List Declaration) :
    (g.generateCached c ds).1.units = (g.produced c ds).map UnitEntry.unit := by
  rw [generateCached]
  split_ifs with none
  · rw [produced_of_isEmpty none]
    rfl
  · rfl

/-! ## Where the units of a pass come from -/

/-- A unit of a pass was found in the cache, or it is new to the cache. -/
theorem entry_cases (hc : c.IsKeyed) {k : UnitKey} {cs : List Candidate} {e : UnitEntry}
    (h : Result.entry? (g.result c k cs) = some e) :
    e.unit.fingerprint = fingerprint g.configuration cs ∧
      (g.result c k cs = .found e ∧ c.find? e.unit.fingerprint = some e ∨
        g.result c k cs = .fresh e ∧ c.find? e.unit.fingerprint = none) := by
  rw [result] at h ⊢
  cases found : c.find? (fingerprint g.configuration cs) with
  | some d =>
    simp only [found, Result.entry?, Option.some.injEq] at h
    subst h
    have own := hc _ _ found
    exact ⟨own, .inl ⟨rfl, own ▸ found⟩⟩
  | none =>
    simp only [found] at h
    cases made : g.render k cs with
    | found d =>
      -- A group that is rendered is never one that was found.
      rw [render] at made
      split at made <;> cases made
    | fresh d =>
      simp only [made, Result.entry?, Option.some.injEq] at h
      subst h
      have own := fingerprint_of_render made
      exact ⟨own, .inr ⟨rfl, own ▸ found⟩⟩
    | failed reports => simp [made, Result.entry?] at h

theorem exists_group_of_mem_produced {e : UnitEntry} (he : e ∈ g.produced c ds) :
    ∃ group ∈ Candidate.groups (g.candidates ds),
      Result.entry? (g.result c group.1 group.2) = some e := by
  obtain ⟨r, hr, hre⟩ := List.mem_filterMap.mp he
  rw [results_eq_map] at hr
  obtain ⟨group, hgroup, rfl⟩ := List.mem_map.mp hr
  exact ⟨group, hgroup, hre⟩

/-- The units of a pass are those that were found and those that are new. -/
theorem mem_produced_iff (hc : c.IsKeyed) {e : UnitEntry} :
    e ∈ g.produced c ds ↔
      .found e ∈ g.results c ds ∧ c.find? e.unit.fingerprint = some e ∨
        e ∈ (g.results c ds).filterMap Result.fresh? ∧ c.find? e.unit.fingerprint = none := by
  constructor
  · intro he
    obtain ⟨group, hgroup, hre⟩ := exists_group_of_mem_produced he
    have mem : g.result c group.1 group.2 ∈ g.results c ds :=
      List.mem_map_of_mem (f := fun group : UnitKey × List Candidate => g.result c group.1 group.2)
        hgroup
    rcases (entry_cases hc hre).2 with ⟨hr, hfind⟩ | ⟨hr, hfind⟩
    · exact .inl ⟨hr ▸ mem, hfind⟩
    · exact .inr ⟨List.mem_filterMap.mpr ⟨_, mem, by rw [hr]; rfl⟩, hfind⟩
  · rintro (⟨mem, -⟩ | ⟨mem, -⟩)
    · exact List.mem_filterMap.mpr ⟨_, mem, rfl⟩
    · obtain ⟨r, hr, hf⟩ := List.mem_filterMap.mp mem
      refine List.mem_filterMap.mpr ⟨r, hr, ?_⟩
      cases r <;> simp_all [Result.fresh?, Result.entry?]

theorem find?_of_mem_fresh (hc : c.IsKeyed) {e : UnitEntry}
    (he : e ∈ (g.results c ds).filterMap Result.fresh?) : c.find? e.unit.fingerprint = none := by
  obtain ⟨r, hr, hf⟩ := List.mem_filterMap.mp he
  rw [results_eq_map] at hr
  obtain ⟨group, -, rfl⟩ := List.mem_map.mp hr
  have entry : Result.entry? (g.result c group.1 group.2) = some e := by
    cases h : g.result c group.1 group.2 <;> simp_all [Result.fresh?, Result.entry?]
  rcases (entry_cases hc entry).2 with ⟨found, -⟩ | ⟨-, h⟩
  · rw [found] at hf
    cases hf
  · exact h

/-- What the cache has under a fingerprint after a pass over something eligible. -/
theorem find?_generateCached (some : ¬ (g.candidates ds).isEmpty = true) (f : String) :
    (g.generateCached c ds).2.find? f =
      if f ∈ (g.produced c ds).map (·.unit.fingerprint) then
        (((g.results c ds).filterMap Result.fresh?).reverse.find?
          (·.unit.fingerprint = f)).or (c.find? f)
      else none := by
  have live : (outputOf (g.results c ds)).units.map SourceUnit.fingerprint =
      (g.produced c ds).map (·.unit.fingerprint) := by
    rw [outputOf, List.map_map]
    rfl
  rw [generateCached, if_neg some]
  simp only [UnitCache.find?_prune, UnitCache.find?_insertAll, live]

/-! ## What the cache holds afterwards -/

/-- Nothing but units of the pass is found afterwards. -/
theorem mem_produced_of_find? (hc : c.IsKeyed) (some : ¬ (g.candidates ds).isEmpty = true)
    {f : String} {e : UnitEntry} (h : (g.generateCached c ds).2.find? f = .some e) :
    e ∈ g.produced c ds ∧ e.unit.fingerprint = f := by
  rw [find?_generateCached some] at h
  split_ifs at h with live
  rcases Option.or_eq_some_iff.mp h with new | ⟨notNew, old⟩
  · have mem := List.mem_reverse.mp (List.mem_of_find?_eq_some new)
    have own : e.unit.fingerprint = f := by simpa using List.find?_some new
    exact ⟨(mem_produced_iff hc).mpr (.inr ⟨mem, find?_of_mem_fresh hc mem⟩), own⟩
  · -- The cache had an entry under the fingerprint, so the unit that kept it alive was found.
    obtain ⟨d, hd, rfl⟩ := List.mem_map.mp live
    rcases (mem_produced_iff hc).mp hd with ⟨-, found⟩ | ⟨-, missing⟩
    · have same : d = e := Option.some.inj (found.symm.trans old)
      exact ⟨same ▸ hd, congrArg (·.unit.fingerprint) same.symm⟩
    · rw [missing] at old
      cases old

/-- A unit with the fingerprint of each unit of the pass is found afterwards. -/
theorem exists_find?_of_mem_produced (hc : c.IsKeyed) {e : UnitEntry}
    (he : e ∈ g.produced c ds) :
    ∃ d, (g.generateCached c ds).2.find? e.unit.fingerprint = some d := by
  have some : ¬ (g.candidates ds).isEmpty = true := by
    intro none
    rw [produced_of_isEmpty none] at he
    exact List.not_mem_nil he
  rw [find?_generateCached some, if_pos (List.mem_map_of_mem he)]
  rcases (mem_produced_iff hc).mp he with ⟨-, found⟩ | ⟨new, -⟩
  · rw [found]
    exact Option.isSome_iff_exists.mp (by simp)
  · have isSome : (((g.results c ds).filterMap Result.fresh?).reverse.find?
        (·.unit.fingerprint = e.unit.fingerprint)).isSome = true :=
      List.find?_isSome.mpr ⟨e, List.mem_reverse.mpr new, by simp⟩
    obtain ⟨d, hd⟩ := Option.isSome_iff_exists.mp isSome
    exact ⟨d, by rw [hd, Option.some_or]⟩

/-- A pass that reaches the cache leaves in it the keys of its units. -/
theorem mem_keys_generateCached_iff (hc : c.IsKeyed) (some : ¬ (g.candidates ds).isEmpty = true)
    (f : String) :
    f ∈ (g.generateCached c ds).2.keys ↔
      f ∈ (g.produced c ds).map (·.unit.fingerprint) := by
  rw [UnitCache.mem_keys_iff]
  constructor
  · rintro ⟨e, he⟩
    obtain ⟨mem, own⟩ := mem_produced_of_find? hc some he
    exact List.mem_map.mpr ⟨e, mem, own⟩
  · intro hf
    obtain ⟨e, he, rfl⟩ := List.mem_map.mp hf
    exact exists_find?_of_mem_produced hc he

theorem holds_produced_iff_apart (hc : c.IsKeyed) (some : ¬ (g.candidates ds).isEmpty = true) :
    (g.generateCached c ds).2.Holds (g.produced c ds) ↔ Apart (g.produced c ds) := by
  constructor
  · intro holds e he f hf same
    have first := (holds _ e).mpr ⟨he, same⟩
    have second := (holds _ f).mpr ⟨hf, rfl⟩
    exact Option.some.inj (first.symm.trans second)
  · intro apart f e
    constructor
    · exact mem_produced_of_find? hc some
    · rintro ⟨he, rfl⟩
      obtain ⟨d, hd⟩ := exists_find?_of_mem_produced hc he
      obtain ⟨mem, same⟩ := mem_produced_of_find? hc some hd
      rw [hd, apart d mem e he same]

/-- Different units of a pass have different fingerprints, unless two texts that the pass hashes
have one digest. -/
theorem apart_produced (hc : c.IsKeyed)
    (free : CollisionFree ((Candidate.groups (g.candidates ds)).map fun group =>
      CacheStep.bytesOf g group.2)) : Apart (g.produced c ds) := by
  intro e he f hf same
  obtain ⟨⟨k, cs⟩, hk, hke⟩ := exists_group_of_mem_produced he
  obtain ⟨⟨l, es⟩, hl, hlf⟩ := exists_group_of_mem_produced hf
  have digests : fingerprint g.configuration cs = fingerprint g.configuration es := by
    rw [← (entry_cases hc hke).1, ← (entry_cases hc hlf).1, same]
  have texts := toUTF8_toList_injective
    (free _ (List.mem_map_of_mem hk) _ (List.mem_map_of_mem hl) digests)
  obtain ⟨-, rfl⟩ := eq_of_fingerprintText_eq texts
  -- Groups with the same candidates have the same key, which is that of any candidate in them.
  obtain ⟨some, keys⟩ := group_of_mem hk
  obtain ⟨d, hd⟩ := List.exists_mem_of_ne_nil cs some
  have key : k = l := (keys d hd).symm.trans ((group_of_mem hl).2 d hd)
  subst key
  exact Option.some.inj (hke.symm.trans hlf)

/-- What the cache is after a pass, in terms of what the pass put out. -/
structure LeavesLastRun (g : Generator) (c : UnitCache) (ds : List Declaration) : Prop where
  /-- The units of the output are those that the pass put out. -/
  units : (g.generateCached c ds).1.units = (g.produced c ds).map UnitEntry.unit
  /-- Each of them has the reports that the output has for its group. -/
  reports : (∃ d ∈ ds, Declaration.rejection? g.configuration.marker d = none) →
    (g.generateCached c ds).1.diagnostics = (g.results c ds).flatMap Result.diagnostics
  /-- The keys are the fingerprints of the units, except after a pass that found nothing eligible
  and an earlier pass that did. -/
  keys : (∀ f, f ∈ (g.generateCached c ds).2.keys ↔
      f ∈ (g.generateCached c ds).1.units.map SourceUnit.fingerprint) ↔
    (∃ d ∈ ds, Declaration.rejection? g.configuration.marker d = none) ∨ c = {}
  /-- Then each key has the unit itself with its reports, if units with one fingerprint are one
  unit. -/
  entries : (g.generateCached c ds).2.Holds (g.produced c ds) ↔
    ((∃ d ∈ ds, Declaration.rejection? g.configuration.marker d = none) ∨ c = {}) ∧
      Apart (g.produced c ds)
  /-- They are, unless two texts that the pass hashes have one digest. -/
  apart : CollisionFree ((Candidate.groups (g.candidates ds)).map fun group =>
    CacheStep.bytesOf g group.2) → Apart (g.produced c ds)

/-- After a pass on a cache with every entry under its fingerprint, the cache holds exactly the last
run, if something was eligible or the cache was empty. -/
theorem generateCached_leavesLastRun (g : Generator) {c : UnitCache} (hc : c.IsKeyed)
    (ds : List Declaration) : g.LeavesLastRun c ds := by
  have units := units_generateCached g c ds
  by_cases none : (g.candidates ds).isEmpty = true
  · -- Nothing is put out, and the cache is the one from before.
    have stays : (g.generateCached c ds).2 = c := by rw [generateCached, if_pos none]
    have nothing : ¬ ∃ d ∈ ds, Declaration.rejection? g.configuration.marker d = .none :=
      fun some => exists_eligible_iff.mp some none
    have apart : Apart [] := fun e he => absurd he List.not_mem_nil
    constructor
    case units => exact units
    case reports => exact fun some => absurd some nothing
    case keys =>
      rw [stays, units, produced_of_isEmpty none, or_iff_right nothing]
      simpa using UnitCache.forall_notMem_keys_iff
    case entries =>
      rw [stays, produced_of_isEmpty none, or_iff_right nothing, UnitCache.holds_nil_iff,
        and_iff_left apart]
    case apart => exact apart_produced hc
  · have eligible := exists_eligible_iff.mpr none
    constructor
    case units => exact units
    case reports =>
      intro _
      rw [generateCached, if_neg none]
      rfl
    case keys =>
      rw [units, List.map_map]
      exact iff_of_true (mem_keys_generateCached_iff hc none) (.inl eligible)
    case entries =>
      rw [and_iff_right (.inl eligible)]
      exact holds_produced_iff_apart hc none
    case apart => exact apart_produced hc

/-- An entry of an earlier run before a pass over a method, and before one over nothing, after which
it is still there. -/
theorem generateCached_leavesLastRun_of_stale :
    let g := AcceptedGenerator.default.1
    let area : Declaration :=
      { name := "area", container := "Shape", scope := "crate", receiver := some .shared,
        parameters := [⟨"r", "f64"⟩], returnType := "f64", modifiers := ⟨.everyone, true, false⟩,
        annotations := [⟨"exprbind", "expression", [.literal "[r]*[r]"]⟩], hasBody := false,
        fixedShape := true }
    let stale : UnitCache := ⟨[("00", ⟨{ (default : SourceUnit) with fingerprint := "00" }, []⟩)]⟩
    stale.IsKeyed ∧ g.LeavesLastRun stale [area] ∧ g.LeavesLastRun stale [] ∧
      "00" ∈ (g.generateCached stale []).2.keys := by
  intro g area stale
  have keyed : stale.IsKeyed := by
    intro f e h
    rw [UnitCache.find?_cons] at h
    split_ifs at h with here
    · cases h
      exact here.symm
    · exact nomatch h
  have stays : "00" ∈ (g.generateCached stale []).2.keys := by decide +kernel
  exact ⟨keyed, generateCached_leavesLastRun g keyed [area],
    generateCached_leavesLastRun g keyed [], stays⟩

end Generator

end FormulaBinding
