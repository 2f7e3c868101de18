import FormulaBinding.Proofs.Generation.Conservation

/-!
# Groups are independent

A pass is made of one pass for each key, over the eligible declarations of the key alone. So what
else is declared changes nothing for a key: not how groups are mixed, not declarations that are left
out, and not what goes wrong with another group.
-/

namespace FormulaBinding

def Output.concat (os : List Output) : Output :=
  ⟨os.flatMap Output.units, os.flatMap Output.diagnostics⟩

namespace Generator

variable {g : Generator} {k : UnitKey} {ds es : List Declaration}

theorem candidates_eligibleOf_ne_nil (some : g.eligibleOf k ds ≠ []) :
    g.candidates (g.eligibleOf k ds) ≠ [] := by
  obtain ⟨d, hd⟩ := List.exists_mem_of_ne_nil _ some
  exact candidates_ne_nil hd (mem_eligibleOf.mp hd).2.2

/-- A pass over the declarations of one key is a pass over their group. -/
theorem generate_eligibleOf (some : g.eligibleOf k ds ≠ []) :
    g.generate (g.eligibleOf k ds) =
      outputOf [g.render k (Candidate.ofKey k (g.candidates ds))] := by
  have keys : ∀ c ∈ g.candidates (g.eligibleOf k ds), c.key = k := by
    intro c hc
    rw [candidates_eligibleOf] at hc
    simpa using (List.mem_filter.mp hc).2
  rw [generate_of_forall_key (candidates_eligibleOf_ne_nil some) keys, candidates_eligibleOf]

def sections (g : Generator) (ds : List Declaration) : List (UnitKey × Output) :=
  (Candidate.groups (g.candidates ds)).map fun group =>
    (group.1, outputOf [g.render group.1 group.2])

/-- Whether a pass is made of passes over the declarations of one key each. -/
structure SplitsByKey (g : Generator) (ds : List Declaration) : Prop where
  /-- The output is that of the sections, one after the other. -/
  output : g.generate ds = Output.concat ((g.sections ds).map Prod.snd)
  /-- Sections stand in strictly increasing order of their keys. -/
  increasing : Candidate.Increasing ((g.sections ds).map Prod.fst)
  /-- There is one for each key of an eligible declaration. -/
  keys : ∀ k, k ∈ (g.sections ds).map Prod.fst ↔ g.eligibleOf k ds ≠ []
  /-- A section is what a pass gives over the eligible declarations of its key alone. -/
  alone : ∀ s ∈ g.sections ds, s.2 = g.generate (g.eligibleOf s.1 ds)
  /-- The unit of a section, if it has one, is the unit with its key. -/
  units : ∀ s ∈ g.sections ds,
    s.2.units.length ≤ 1 ∧ (g.generate ds).units.filter (·.key = s.1) = s.2.units

/-- Whether two passes have the same section for a key, with the same unit or none. -/
def AgreeAt (g : Generator) (k : UnitKey) (ds es : List Declaration) : Prop :=
  ∃ part : Output, (g.sections ds).lookup k = some part ∧ (g.sections es).lookup k = some part ∧
    part = g.generate (g.eligibleOf k ds) ∧
    (g.generate ds).units.filter (·.key = k) = part.units ∧
    (g.generate es).units.filter (·.key = k) = part.units

theorem outputOf_eq_concat (rs : List Result) :
    outputOf rs = Output.concat (rs.map fun r => outputOf [r]) := by
  rw [Output.concat, List.flatMap_map, List.flatMap_map, outputOf]
  congr 1
  · rw [List.map_filterMap, List.filterMap_eq_flatMap_toList]
    exact List.flatMap_congr fun r _ => by rw [outputOf_singleton]; rfl
  · exact List.flatMap_congr fun r _ => by rw [outputOf_singleton]

theorem map_fst_sections (g : Generator) (ds : List Declaration) :
    (g.sections ds).map Prod.fst = Candidate.keysOf (Candidate.groups (g.candidates ds)) := by
  rw [sections, List.map_map]
  rfl

theorem mem_keysOf_iff :
    k ∈ Candidate.keysOf (Candidate.groups (g.candidates ds)) ↔ g.eligibleOf k ds ≠ [] := by
  rw [Candidate.mem_keysOf_groups]
  constructor
  · rintro ⟨c, hc, rfl⟩
    obtain ⟨d, hd, rfl⟩ := List.mem_map.mp hc
    obtain ⟨mem, eligible⟩ := List.mem_filter.mp hd
    exact List.ne_nil_of_mem
      (mem_eligibleOf.mpr ⟨mem, rfl, Option.isNone_iff_eq_none.mp eligible⟩)
  · intro some
    obtain ⟨c, hc⟩ := List.exists_mem_of_ne_nil _ (candidates_eligibleOf_ne_nil some)
    rw [candidates_eligibleOf] at hc
    obtain ⟨mem, key⟩ := List.mem_filter.mp hc
    exact ⟨c, mem, of_decide_eq_true key⟩

theorem eq_of_mem_sections {s : UnitKey × Output} (hs : s ∈ g.sections ds) :
    g.eligibleOf s.1 ds ≠ [] ∧
      s.2 = outputOf [g.render s.1 (Candidate.ofKey s.1 (g.candidates ds))] := by
  obtain ⟨group, hgroup, rfl⟩ := List.mem_map.mp hs
  refine ⟨mem_keysOf_iff.mp (List.mem_map_of_mem hgroup), ?_⟩
  rw [← Candidate.eq_ofKey_of_mem_groups hgroup]

theorem generate_splitsByKey (some : ∃ d ∈ ds,
    Declaration.rejection? g.configuration.marker d = none) : g.SplitsByKey ds := by
  have increasing := Candidate.increasing_keysOf_groups (g.candidates ds)
  have output : g.generate ds =
      outputOf ((Candidate.groups (g.candidates ds)).map fun group => g.render group.1 group.2) := by
    rw [generate, if_neg (exists_eligible_iff.mp some)]
    rfl
  constructor
  case output =>
    rw [output, outputOf_eq_concat, sections, List.map_map, List.map_map]
    rfl
  case increasing =>
    rw [map_fst_sections]
    exact increasing
  case keys =>
    intro k
    rw [map_fst_sections]
    exact mem_keysOf_iff
  case alone =>
    intro s hs
    obtain ⟨some, same⟩ := eq_of_mem_sections hs
    rw [same, generate_eligibleOf some]
  case units =>
    intro s hs
    obtain ⟨-, same⟩ := eq_of_mem_sections hs
    have hk : s.1 ∈ Candidate.keysOf (Candidate.groups (g.candidates ds)) := by
      rw [← map_fst_sections]
      exact List.mem_map_of_mem hs
    have named : ∀ k u, (g.render k (Candidate.ofKey k (g.candidates ds))).unit? = .some u →
        u.key = k := fun _ _ => key_of_render
    rw [same, outputOf_singleton, output, outputOf_groups]
    refine ⟨?_, filter_key_eq named (nodup_of_increasing increasing) hk⟩
    cases Result.unit? (g.render s.1 (Candidate.ofKey s.1 (g.candidates ds))) with
    | none => exact Nat.zero_le 1
    | some u => exact Nat.le_refl 1

theorem lookup_of_mem_sections {s : UnitKey × Output} (hs : s ∈ g.sections ds) :
    (g.sections ds).lookup s.1 = some s.2 := by
  have distinct : ((g.sections ds).map Prod.fst).Nodup := by
    rw [map_fst_sections]
    exact nodup_of_increasing (Candidate.increasing_keysOf_groups _)
  obtain ⟨before, after, split⟩ := List.append_of_mem hs
  rw [split, List.map_append, List.map_cons] at distinct
  have fresh : s.1 ∉ before.map Prod.fst := fun h =>
    (List.nodup_cons.mp (List.nodup_middle.mp distinct)).1 (List.mem_append_left _ h)
  refine List.lookup_eq_some_iff.mpr ⟨before, after, split, ?_⟩
  intro p hp
  exact bne_iff_ne.mpr fun here => fresh (here ▸ List.mem_map_of_mem hp)

/-- Two passes with the same eligible declarations of a key have the same section for it, whatever
else they are over; and each pass is made of its sections. -/
theorem generate_agrees_at (g : Generator) {k : UnitKey} {ds es : List Declaration}
    (some : g.eligibleOf k ds ≠ []) (same : g.eligibleOf k ds = g.eligibleOf k es) :
    g.SplitsByKey ds ∧ g.SplitsByKey es ∧ g.AgreeAt k ds es := by
  -- Both passes get the section from the declarations of the key alone, which are the same.
  have splits {rs : List Declaration} (h : g.eligibleOf k rs ≠ []) : g.SplitsByKey rs := by
    obtain ⟨d, hd⟩ := List.exists_mem_of_ne_nil _ h
    obtain ⟨mem, -, eligible⟩ := mem_eligibleOf.mp hd
    exact generate_splitsByKey ⟨d, mem, eligible⟩
  have part {rs : List Declaration} (h : g.eligibleOf k rs ≠ []) :
      (g.sections rs).lookup k = .some (g.generate (g.eligibleOf k rs)) ∧
        (g.generate rs).units.filter (·.key = k) = (g.generate (g.eligibleOf k rs)).units := by
    obtain ⟨s, hs, rfl⟩ := List.mem_map.mp (((splits h).keys k).mpr h)
    rw [← (splits h).alone s hs]
    exact ⟨lookup_of_mem_sections hs, ((splits h).units s hs).2⟩
  have other : g.eligibleOf k es ≠ [] := same ▸ some
  obtain ⟨first, unit⟩ := part some
  obtain ⟨second, unit'⟩ := part other
  rw [← same] at second unit'
  exact ⟨splits some, splits other, _, first, second, rfl, unit, unit'⟩

/-- A method among others of its group and of another one, and the same methods behind a method
that is not marked and one whose unit fails. -/
theorem generate_agrees_at_of_interleaved :
    let g := AcceptedGenerator.default.1
    let area : Declaration :=
      { name := "area", container := "Shape", scope := "crate", receiver := some .shared,
        parameters := [⟨"r", "f64"⟩], returnType := "f64", modifiers := ⟨.everyone, true, false⟩,
        annotations := [⟨"exprbind", "expression", [.literal "[r]*[s]"]⟩], hasBody := false,
        fixedShape := true }
    let edge := { area with name := "edge", parameters := [] }
    let ds := [area, { area with container := "Solid" }, edge]
    let es := [{ area with annotations := [] }, { area with container := "" }, area, edge]
    g.eligibleOf ⟨"crate", "Shape"⟩ ds ≠ [] ∧
      g.eligibleOf ⟨"crate", "Shape"⟩ ds = g.eligibleOf ⟨"crate", "Shape"⟩ es ∧
      g.SplitsByKey ds ∧ g.SplitsByKey es ∧ g.AgreeAt ⟨"crate", "Shape"⟩ ds es := by
  intro g area edge ds es
  have own : g.eligibleOf ⟨"crate", "Shape"⟩ ds = [area, edge] := by decide +kernel
  have other : g.eligibleOf ⟨"crate", "Shape"⟩ es = [area, edge] := by decide +kernel
  have some : g.eligibleOf ⟨"crate", "Shape"⟩ ds ≠ [] := by
    rw [own]
    exact List.cons_ne_nil _ _
  have same : g.eligibleOf ⟨"crate", "Shape"⟩ ds = g.eligibleOf ⟨"crate", "Shape"⟩ es := by
    rw [own, other]
  exact ⟨some, same, generate_agrees_at g some same⟩

end Generator

end FormulaBinding
