import FormulaBinding.Proofs.Generation.Acceptance
import FormulaBinding.Proofs.Generation.Groups
import FormulaBinding.Proofs.Unit.Emission
import Mathlib.Data.List.Nodup

/-!
# A pass loses no candidate

Every eligible declaration belongs to one group, the groups stand in order of their keys, and each
of them has one unit or one report of why it has none. What is wrong with a candidate is reported
once, whatever becomes of its unit; a member that cannot be written is left out of its unit, which
is then the unit of the other members.
-/

namespace FormulaBinding

def Declaration.key (d : Declaration) : UnitKey := ⟨d.scope, d.container⟩

/-- Whether a member is that of a declaration. -/
structure Member.IsOf (m : Member) (d : Declaration) : Prop where
  container : m.container = d.container
  scope : m.scope = d.scope
  name : m.name = d.name
  receiver : m.receiver = d.receiver
  parameters : m.parameters = d.parameters

namespace Candidate

/-- What is wrong with a candidate by itself: it has no template, its template is refused, or
parameters and placeholders differ. -/
def complaint? (scheme : Enclosure) (policy : Policy) (c : Candidate) : Option Diagnostic :=
  match c.template with
  | none => some (Diagnostic.missingTemplate c)
  | some template =>
    match Template.placeholders scheme template with
    | .error e => some (Diagnostic.invalidTemplate c e)
    | .ok placeholders =>
      let outcome := Outcome.compare c.parameters placeholders
      if outcome.isSuccess then none else some (Diagnostic.mismatch c outcome policy.severity)

theorem diagnostics_build (scheme : Enclosure) (policy : Policy) (c : Candidate) :
    (c.build scheme policy).diagnostics = (c.complaint? scheme policy).toList := by
  simp only [build, body, complaint?]
  cases c.template with
  | none => rfl
  | some template =>
    cases read : Template.placeholders scheme template with
    | error e => simp only [read]; rfl
    | ok placeholders =>
      simp only [read]
      split_ifs <;> rfl

theorem related_of_complaint? {scheme : Enclosure} {policy : Policy} {c : Candidate}
    {d : Diagnostic} (h : c.complaint? scheme policy = some d) :
    d.related = some c.qualifiedName := by
  rw [complaint?] at h
  split at h
  · cases h
    rfl
  · split at h
    · cases h
      rfl
    · simp only at h
      split_ifs at h
      cases h
      rfl

theorem complaint?_concern {scheme : Enclosure} {policy : Policy} {c : Candidate} {d : Diagnostic}
    (h : c.complaint? scheme policy = some d) : d.concern ≠ .emission := by
  rw [complaint?] at h
  split at h
  · cases h
    nofun
  · split at h
    · cases h
      nofun
    · simp only at h
      split_ifs at h
      cases h
      nofun

end Candidate

namespace Generator

/-! ## What becomes of a group -/

def memberOf (g : Generator) (c : Candidate) : Member :=
  (c.build g.configuration.enclosure g.configuration.policy).member

theorem qualifiedName_memberOf (g : Generator) (c : Candidate) :
    (g.memberOf c).qualifiedName = c.qualifiedName := rfl

def complaint? (g : Generator) (c : Candidate) : Option Diagnostic :=
  c.complaint? g.configuration.enclosure g.configuration.policy

def writes (g : Generator) (c : Candidate) : Bool := g.context.canWrite (g.memberOf c)

/-- Whether a diagnostic says that the member of a candidate is left out, by its full name. -/
structure IsSkip (g : Generator) (c : Candidate) (d : Diagnostic) : Prop where
  concern : d.concern = .emission
  severity : d.severity = .error
  related : d.related = some c.qualifiedName
  cause : ∃ e, g.context.member (g.memberOf c) = .error e ∧
    d = Diagnostic.memberEmission (g.memberOf c) e

/-- A group with a unit. The unit has the members that can be written, and is the unit of these
members alone; complaints come first, then one diagnostic for each other member. -/
structure HasUnit (g : Generator) (k : UnitKey) (cs : List Candidate) (u : SourceUnit)
    (reports : List Diagnostic) : Prop where
  key : u.key = k
  members : u.members = (cs.filter g.writes).map g.memberOf
  alone : SourceUnit.emit g.context k u.members (fingerprint g.configuration cs) = .ok ⟨u, []⟩
  reports : ∃ skips, reports = cs.filterMap g.complaint? ++ skips ∧
    List.Forall₂ g.IsSkip (cs.filter fun c => !g.writes c) skips

/-- A group without a unit. The members that can be written make no unit either; complaints come
first, then one diagnostic that names the group. -/
structure HasNoUnit (g : Generator) (k : UnitKey) (cs : List Candidate) (e : EmissionError)
    (reports : List Diagnostic) : Prop where
  alone : SourceUnit.emit g.context k ((cs.filter g.writes).map g.memberOf)
    (fingerprint g.configuration cs) = .error e
  reports : reports = cs.filterMap g.complaint? ++ [Diagnostic.emission k e]
  related : (Diagnostic.emission k e).related = some k.text

def Result.unit? (r : Result) : Option SourceUnit := r.entry?.map UnitEntry.unit

theorem flatMap_diagnostics_build (g : Generator) (cs : List Candidate) :
    (cs.map (Candidate.build g.configuration.enclosure g.configuration.policy)).flatMap
      BuiltMember.diagnostics = cs.filterMap g.complaint? := by
  rw [List.flatMap_map, List.filterMap_eq_flatMap_toList]
  exact List.flatMap_congr fun c _ => Candidate.diagnostics_build _ _ c

theorem filter_memberOf (g : Generator) (cs : List Candidate) :
    (cs.map g.memberOf).filter g.context.canWrite = (cs.filter g.writes).map g.memberOf :=
  List.filter_map

/-- The result of a group, told by the members and the complaints of its candidates. -/
theorem render_eq (g : Generator) (k : UnitKey) (cs : List Candidate) : g.render k cs =
    match SourceUnit.emit g.context k (cs.map g.memberOf) (fingerprint g.configuration cs) with
    | .ok e => .fresh { e with diagnostics := cs.filterMap g.complaint? ++ e.diagnostics }
    | .error e => .failed (cs.filterMap g.complaint? ++ [Diagnostic.emission k e]) := by
  have members : (cs.map (Candidate.build g.configuration.enclosure g.configuration.policy)).map
      BuiltMember.member = cs.map g.memberOf := List.map_map
  rw [← flatMap_diagnostics_build, ← members]
  rfl

/-- What is reported about a group: complaints, and then why it has no unit or what its unit is
without. -/
theorem diagnostics_render (g : Generator) (k : UnitKey) (cs : List Candidate) :
    (g.render k cs).diagnostics = cs.filterMap g.complaint? ++
      match SourceUnit.emit g.context k (cs.map g.memberOf) (fingerprint g.configuration cs) with
      | .error e => [Diagnostic.emission k e]
      | .ok _ => (cs.map g.memberOf).filterMap g.context.skip? := by
  rw [render_eq]
  cases emitted : SourceUnit.emit g.context k (cs.map g.memberOf)
      (fingerprint g.configuration cs) with
  | error e => rfl
  | ok entry =>
    obtain ⟨-, -, -, skips⟩ := SourceUnit.emit_eq_ok emitted
    rw [SourceUnit.snd_renderAll] at skips
    exact congrArg _ skips

theorem isSkip_of_isSkip {g : Generator} {c : Candidate} {d : Diagnostic}
    (h : g.context.IsSkip (g.memberOf c) d) : g.IsSkip c d := by
  obtain ⟨e, he, rfl⟩ := h
  exact ⟨rfl, rfl, rfl, e, he, rfl⟩

theorem render_cases (g : Generator) (k : UnitKey) (cs : List Candidate) :
    (∃ u, (g.render k cs).unit? = some u ∧ g.HasUnit k cs u (g.render k cs).diagnostics) ∨
      (g.render k cs).unit? = none ∧
        ∃ e, g.HasNoUnit k cs e (g.render k cs).diagnostics := by
  have alone := SourceUnit.emit_filter g.context k (cs.map g.memberOf)
    (fingerprint g.configuration cs)
  rw [filter_memberOf] at alone
  rw [render_eq]
  cases emitted : SourceUnit.emit g.context k (cs.map g.memberOf)
      (fingerprint g.configuration cs) with
  | error e =>
    rw [emitted] at alone
    exact .inr ⟨rfl, e, alone, rfl, rfl⟩
  | ok entry =>
    rw [emitted] at alone
    obtain ⟨key, -, kept, skips⟩ := SourceUnit.emit_eq_ok emitted
    rw [filter_memberOf] at kept
    refine .inl ⟨entry.unit, rfl, key, kept, by rw [kept]; exact alone, entry.diagnostics, rfl, ?_⟩
    have each := SourceUnit.forall₂_renderAll g.context (cs.map g.memberOf)
    rw [List.filter_map, List.forall₂_map_left_iff, ← skips] at each
    exact each.imp fun _ _ => isSkip_of_isSkip

/-! ## What becomes of all groups -/

/-- What a pass owes to candidates. -/
structure Conserves (g : Generator) (cs : List Candidate) (o : Output) : Prop where
  /-- Units stand in strictly increasing order of their keys. -/
  increasing : Candidate.Increasing (o.units.map SourceUnit.key)
  /-- Each unit is that of some candidate. -/
  owned : ∀ u ∈ o.units, ∃ c ∈ cs, c.key = u.key
  /-- Diagnostics are those of the groups, in order; each group has exactly one unit or none. -/
  groups : ∃ (keys : List UnitKey) (reports : UnitKey → List Diagnostic),
    Candidate.Increasing keys ∧ (∀ k, k ∈ keys ↔ ∃ c ∈ cs, c.key = k) ∧
    o.diagnostics = keys.flatMap reports ∧
    ∀ k ∈ keys,
      (∃ u, o.units.filter (·.key = k) = [u] ∧
        g.HasUnit k (Candidate.ofKey k cs) u (reports k)) ∨
      (o.units.filter (·.key = k) = [] ∧
        ∃ e, g.HasNoUnit k (Candidate.ofKey k cs) e (reports k))
  /-- What is wrong with candidates is reported as often as it is the case. -/
  complaints : (o.diagnostics.filter (·.concern ≠ .emission)).Perm (cs.filterMap g.complaint?)

section
variable {keys : List UnitKey} {unit? : UnitKey → Option SourceUnit}

private theorem map_key_sublist (named : ∀ k u, unit? k = some u → u.key = k) :
    ((keys.filterMap unit?).map SourceUnit.key).Sublist keys := by
  induction keys with
  | nil => exact .slnil
  | cons k keys ih =>
    cases h : unit? k with
    | none => rw [List.filterMap_cons_none h]; exact ih.cons k
    | some u =>
      rw [List.filterMap_cons_some h, List.map_cons, named k u h]
      exact ih.cons_cons k

theorem filter_key_eq (named : ∀ k u, unit? k = some u → u.key = k) (hn : keys.Nodup)
    {k : UnitKey} (hk : k ∈ keys) :
    (keys.filterMap unit?).filter (·.key = k) = (unit? k).toList := by
  have other : ∀ ls : List UnitKey, k ∉ ls → (ls.filterMap unit?).filter (·.key = k) = [] := by
    intro ls hls
    rw [List.filter_eq_nil_iff]
    intro u hu hkey
    obtain ⟨l, hl, hlu⟩ := List.mem_filterMap.mp hu
    exact hls (by rw [← of_decide_eq_true hkey, named l u hlu]; exact hl)
  obtain ⟨before, after, rfl⟩ := List.append_of_mem hk
  have apart := List.nodup_middle.mp hn
  have fresh : k ∉ before ++ after := (List.nodup_cons.mp apart).1
  rw [List.mem_append, not_or] at fresh
  rw [List.filterMap_append, List.filter_append, other before fresh.1, List.nil_append]
  cases h : unit? k with
  | none => rw [List.filterMap_cons_none h, other after fresh.2]; rfl
  | some u =>
    rw [List.filterMap_cons_some h, List.filter_cons_of_pos (by simp [named k u h]),
      other after fresh.2]
    rfl

end

theorem nodup_of_increasing {keys : List UnitKey} (h : Candidate.Increasing keys) :
    keys.Nodup := by
  refine h.imp ?_
  rintro a _ hab rfl
  exact UnitKey.isBefore_irrefl a hab

theorem key_of_render {g : Generator} {k : UnitKey} {cs : List Candidate} {u : SourceUnit}
    (h : (g.render k cs).unit? = some u) : u.key = k := by
  rcases render_cases g k cs with ⟨v, hv, has⟩ | ⟨none, -⟩
  · rw [h] at hv
    exact (Option.some.inj hv) ▸ has.key
  · rw [h] at none
    cases none

theorem filter_reports (g : Generator) (k : UnitKey) (cs : List Candidate) :
    (g.render k cs).diagnostics.filter (·.concern ≠ .emission) = cs.filterMap g.complaint? := by
  have own : (cs.filterMap g.complaint?).filter (·.concern ≠ .emission) =
      cs.filterMap g.complaint? := by
    rw [List.filter_eq_self]
    intro d hd
    obtain ⟨c, -, hc⟩ := List.mem_filterMap.mp hd
    exact decide_eq_true (Candidate.complaint?_concern hc)
  rcases render_cases g k cs with ⟨u, -, has⟩ | ⟨-, e, has⟩
  · obtain ⟨skips, reports, each⟩ := has.reports
    have none : skips.filter (·.concern ≠ .emission) = [] := by
      generalize (cs.filter fun c => !g.writes c) = left at each
      clear reports
      induction each with
      | nil => rfl
      | cons h _ ih => rw [List.filter_cons_of_neg (by simp [h.concern]), ih]
    rw [reports, List.filter_append, own, none, List.append_nil]
  · rw [has.reports, List.filter_append, own,
      List.filter_cons_of_neg (by simp [Diagnostic.emission]), List.filter_nil, List.append_nil]

theorem outputOf_groups (g : Generator) (cs : List Candidate) :
    outputOf ((Candidate.groups cs).map fun group => g.render group.1 group.2) =
      ⟨(Candidate.keysOf (Candidate.groups cs)).filterMap fun k =>
          (g.render k (Candidate.ofKey k cs)).unit?,
        (Candidate.keysOf (Candidate.groups cs)).flatMap fun k =>
          (g.render k (Candidate.ofKey k cs)).diagnostics⟩ := by
  -- The groups are those of their keys, so that the functions of results compose with the keys.
  conv_lhs => rw [Candidate.groups_eq_map]
  rw [List.map_map, outputOf, List.filterMap_map, List.flatMap_map, List.map_filterMap]
  rfl

theorem conserves_outputOf (g : Generator) (cs : List Candidate) :
    g.Conserves cs
      (outputOf ((Candidate.groups cs).map fun group => g.render group.1 group.2)) := by
  let keys := Candidate.keysOf (Candidate.groups cs)
  let unit? (k : UnitKey) := (g.render k (Candidate.ofKey k cs)).unit?
  let reports (k : UnitKey) := (g.render k (Candidate.ofKey k cs)).diagnostics
  have increasing : Candidate.Increasing keys := Candidate.increasing_keysOf_groups cs
  have named : ∀ k u, unit? k = some u → u.key = k := fun _ _ => key_of_render
  have output : outputOf ((Candidate.groups cs).map fun group => g.render group.1 group.2) =
      ⟨keys.filterMap unit?, keys.flatMap reports⟩ := outputOf_groups g cs
  rw [output]
  constructor
  case increasing => exact increasing.sublist (map_key_sublist named)
  case owned =>
    intro u hu
    obtain ⟨k, hk, hku⟩ := List.mem_filterMap.mp hu
    rw [named k u hku]
    exact (Candidate.mem_keysOf_groups cs k).mp hk
  case groups =>
    refine ⟨keys, reports, increasing, Candidate.mem_keysOf_groups cs, rfl, ?_⟩
    intro k hk
    rw [filter_key_eq named (nodup_of_increasing increasing) hk]
    rcases render_cases g k (Candidate.ofKey k cs) with ⟨u, hu, has⟩ | ⟨hu, e, has⟩
    · exact .inl ⟨u, congrArg Option.toList hu, has⟩
    · exact .inr ⟨congrArg Option.toList hu, e, has⟩
  case complaints =>
    have each : (keys.flatMap reports).filter (·.concern ≠ .emission) =
        ((Candidate.groups cs).flatMap Prod.snd).filterMap g.complaint? := by
      rw [List.filter_flatMap, List.filterMap_flatMap, Candidate.groups_eq_map, List.flatMap_map]
      exact List.flatMap_congr fun k _ => filter_reports g k _
    rw [each]
    exact (Candidate.flatMap_groups_perm cs).filterMap _

theorem candidates_ne_nil {g : Generator} {d : Declaration} {ds : List Declaration} (hd : d ∈ ds)
    (eligible : Declaration.rejection? g.configuration.marker d = none) : g.candidates ds ≠ [] := by
  refine List.ne_nil_of_mem (List.mem_map_of_mem (List.mem_filter.mpr ⟨hd, ?_⟩))
  rw [eligible]
  rfl

/-- Something is eligible exactly if there is a candidate. -/
theorem exists_eligible_iff {g : Generator} {ds : List Declaration} :
    (∃ d ∈ ds, Declaration.rejection? g.configuration.marker d = none) ↔
      ¬ (g.candidates ds).isEmpty = true := by
  rw [List.isEmpty_iff]
  constructor
  · rintro ⟨d, hd, eligible⟩
    exact candidates_ne_nil hd eligible
  · intro some
    obtain ⟨c, hc⟩ := List.exists_mem_of_ne_nil _ some
    obtain ⟨d, hd, -⟩ := List.mem_map.mp hc
    obtain ⟨mem, eligible⟩ := List.mem_filter.mp hd
    exact ⟨d, mem, Option.isNone_iff_eq_none.mp eligible⟩

theorem outputOf_singleton (r : Result) : outputOf [r] = ⟨r.unit?.toList, r.diagnostics⟩ := by
  cases r <;> simp [outputOf, Result.unit?, Result.entry?]

/-- Candidates with one key make the output of one group. -/
theorem generate_of_forall_key {g : Generator} {ds : List Declaration} {k : UnitKey}
    (some : g.candidates ds ≠ []) (keys : ∀ c ∈ g.candidates ds, c.key = k) :
    g.generate ds = outputOf [g.render k (g.candidates ds)] := by
  have one := Candidate.groups_eq_singleton some keys
  rw [generate, if_neg (by rwa [List.isEmpty_iff]), results, one]
  rfl

theorem conserves_of_candidates {g : Generator} {ds : List Declaration}
    (some : ¬ (g.candidates ds).isEmpty = true) :
    g.Conserves (g.candidates ds) (g.generate ds) := by
  rw [generate, if_neg some]
  exact conserves_outputOf g (g.candidates ds)

theorem hasUnit_of_mem_units {g : Generator} {ds : List Declaration} {u : SourceUnit}
    (hu : u ∈ (g.generate ds).units) :
    ∃ reports, g.HasUnit u.key (Candidate.ofKey u.key (g.candidates ds)) u reports := by
  rw [generate] at hu
  split_ifs at hu
  · exact absurd hu List.not_mem_nil
  · have hu : u ∈ (outputOf ((Candidate.groups (g.candidates ds)).map fun group =>
        g.render group.1 group.2)).units := hu
    rw [outputOf_groups] at hu
    obtain ⟨k, -, made⟩ := List.mem_filterMap.mp hu
    rcases render_cases g k (Candidate.ofKey k (g.candidates ds)) with ⟨v, hv, has⟩ | ⟨none, -⟩
    · obtain rfl := Option.some.inj (hv.symm.trans made)
      obtain rfl := has.key
      exact ⟨_, has⟩
    · rw [none] at made
      cases made

/-! ## What becomes of declarations -/

def eligibleOf (g : Generator) (k : UnitKey) (ds : List Declaration) : List Declaration :=
  ds.filter fun d =>
    decide (d.key = k) && (Declaration.rejection? g.configuration.marker d).isNone

theorem mem_eligibleOf {g : Generator} {k : UnitKey} {ds : List Declaration} {d : Declaration} :
    d ∈ g.eligibleOf k ds ↔
      d ∈ ds ∧ d.key = k ∧ Declaration.rejection? g.configuration.marker d = none := by
  rw [eligibleOf, List.mem_filter, Bool.and_eq_true, decide_eq_true_iff, Option.isNone_iff_eq_none]

theorem ofKey_candidates (g : Generator) (k : UnitKey) (ds : List Declaration) :
    Candidate.ofKey k (g.candidates ds) =
      (g.eligibleOf k ds).map (Declaration.candidate g.configuration.marker) := by
  rw [candidates, Declaration.candidates, Candidate.ofKey, List.filter_map, List.filter_filter,
    eligibleOf]
  rfl

theorem candidates_eligibleOf (g : Generator) (k : UnitKey) (ds : List Declaration) :
    g.candidates (g.eligibleOf k ds) = Candidate.ofKey k (g.candidates ds) := by
  have twice : (g.eligibleOf k ds).filter
      (fun d => (Declaration.rejection? g.configuration.marker d).isNone) = g.eligibleOf k ds :=
    List.filter_eq_self.mpr fun d hd => Option.isNone_iff_eq_none.mpr (mem_eligibleOf.mp hd).2.2
  rw [candidates, Declaration.candidates, twice, ofKey_candidates]

/-- What a pass owes to declarations. -/
structure Declares (g : Generator) (ds : List Declaration) (o : Output) : Prop where
  /-- Each unit is that of some eligible declaration. -/
  owned : ∀ u ∈ o.units, g.eligibleOf u.key ds ≠ []
  /-- The members of a unit are those of its eligible declarations that can be written, in order. -/
  members : ∀ u ∈ o.units, List.Forall₂ Member.IsOf u.members
    ((g.eligibleOf u.key ds).filter fun d => g.writes (d.candidate g.configuration.marker))
  /-- An eligible declaration that has no member is named in an error, or else its unit is. -/
  accounted : ∀ d ∈ ds, Declaration.rejection? g.configuration.marker d = none →
    (∃ u ∈ o.units, u.key = d.key ∧ ∃ m ∈ u.members, m.IsOf d) ∨
      ∃ r ∈ o.diagnostics, r.concern = .emission ∧ r.severity = .error ∧
        (r.related = some (d.key.text ++ "::" ++ d.name) ∨ r.related = some d.key.text)

theorem isOf_memberOf (g : Generator) (d : Declaration) :
    (g.memberOf (d.candidate g.configuration.marker)).IsOf d := ⟨rfl, rfl, rfl, rfl, rfl⟩

theorem forall₂_isOf_members (g : Generator) (ds : List Declaration) :
    List.Forall₂ Member.IsOf
      (((ds.map (Declaration.candidate g.configuration.marker)).filter g.writes).map g.memberOf)
      (ds.filter fun d => g.writes (d.candidate g.configuration.marker)) := by
  rw [List.filter_map, List.map_map, List.forall₂_map_left_iff]
  exact List.forall₂_same.mpr fun d _ => g.isOf_memberOf d

/-- Where each candidate is given what it is owed, each declaration is. -/
theorem Conserves.declares {g : Generator} {ds : List Declaration}
    (h : g.Conserves (g.candidates ds) (g.generate ds)) : g.Declares ds (g.generate ds) := by
  obtain ⟨keys, reports, -, mem_keys, diagnostics, each⟩ := h.groups
  have eligible {d : Declaration} (hd : d ∈ ds)
      (free : Declaration.rejection? g.configuration.marker d = none) :
      d.candidate g.configuration.marker ∈ Candidate.ofKey d.key (g.candidates ds) := by
    rw [ofKey_candidates]
    exact List.mem_map_of_mem (mem_eligibleOf.mpr ⟨hd, rfl, free⟩)
  refine ⟨fun u hu => ?_, fun u hu => ?_, fun d hd free => ?_⟩
  case refine_1 =>
    obtain ⟨c, hc, key⟩ := h.owned u hu
    obtain ⟨d, hd, rfl⟩ := List.mem_map.mp hc
    obtain ⟨mem, free⟩ := List.mem_filter.mp hd
    exact List.ne_nil_of_mem (mem_eligibleOf.mpr ⟨mem, key, Option.isNone_iff_eq_none.mp free⟩)
  case refine_2 =>
    obtain ⟨_, has⟩ := hasUnit_of_mem_units hu
    rw [has.members, ofKey_candidates]
    exact g.forall₂_isOf_members _
  case refine_3 =>
    have mem := eligible hd free
    have isKey : d.key ∈ keys := (mem_keys d.key).mpr ⟨_, (List.mem_filter.mp mem).1, rfl⟩
    have inside {r : Diagnostic} (hr : r ∈ reports d.key) : r ∈ (g.generate ds).diagnostics := by
      rw [diagnostics]
      exact List.mem_flatMap.mpr ⟨d.key, isKey, hr⟩
    rcases each d.key isKey with ⟨u, unit, has⟩ | ⟨-, e, has⟩
    · have hu : u ∈ (g.generate ds).units := by
        refine List.mem_of_mem_filter (p := fun u => u.key = d.key) ?_
        rw [unit]
        exact List.mem_singleton_self u
      cases writes : g.writes (d.candidate g.configuration.marker) with
      | true =>
        refine .inl ⟨u, hu, has.key, _, ?_, g.isOf_memberOf d⟩
        rw [has.members]
        exact List.mem_map_of_mem (List.mem_filter.mpr ⟨mem, writes⟩)
      | false =>
        obtain ⟨skips, same, skip⟩ := has.reports
        obtain ⟨r, hr, skips⟩ := exists_of_mem_forall₂ skip.flip
          (List.mem_filter.mpr ⟨mem, by rw [writes]; rfl⟩)
        refine .inr ⟨r, inside ?_, skips.concern, skips.severity, .inl skips.related⟩
        rw [same]
        exact List.mem_append_right _ hr
    · refine .inr ⟨Diagnostic.emission d.key e, inside ?_, rfl, rfl, .inr has.related⟩
      rw [has.reports]
      exact List.mem_append_right _ (List.mem_singleton_self _)

end Generator

end FormulaBinding
