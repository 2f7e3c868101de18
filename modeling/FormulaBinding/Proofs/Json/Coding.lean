import FormulaBinding.Json.Decoding
import FormulaBinding.Proofs.Json.Printing
import Mathlib.Data.List.Nodup

/-!
# What is encoded as JSON is decoded again

Every domain value that a cache keeps is encoded by a plain value, from which it is decoded. Both
facts are shown type by type, from the parts to the whole.
-/

namespace FormulaBinding

namespace Json

/-- Where names differ, a field is the only one of its name. -/
theorem filter_name {fields : List (String × Json)} (hd : (fields.map Prod.fst).Nodup)
    {f : String × Json} (hf : f ∈ fields) : fields.filter (·.1 == f.1) = [f] := by
  induction fields with
  | nil => exact absurd hf List.not_mem_nil
  | cons g fields ih =>
    rw [List.map_cons, List.nodup_cons] at hd
    rcases List.mem_cons.mp hf with rfl | hf
    · have none : ∀ g ∈ fields, ¬ (g.1 == f.1) = true := by
        intro g hg h
        exact hd.1 (eq_of_beq h ▸ List.mem_map_of_mem hg)
      rw [List.filter_cons_of_pos (by simp), List.filter_eq_nil_iff.mpr none]
    · have other : ¬ (g.1 == f.1) = true := fun h =>
        hd.1 (eq_of_beq h ▸ List.mem_map_of_mem hf)
      rw [List.filter_cons_of_neg (by simpa using other), ih hd.2 hf]

/-- The fields of a record are found under their names, in order. -/
theorem record?_object {fields : List (String × Json)} {names : List String}
    (hn : fields.map Prod.fst = names) (hd : names.Nodup) :
    record? names (.object fields) = some (fields.map fun f => (true, f.2)) := by
  subst hn
  have all : ∀ gs ⊆ fields, (gs.map Prod.fst).mapM (field? fields) =
      some (gs.map fun f => (true, f.2)) := by
    intro gs hg
    induction gs with
    | nil => rfl
    | cons g gs ih =>
      obtain ⟨hg, hgs⟩ := List.cons_subset.mp hg
      have found : field? fields g.1 = some (true, g.2) := by
        rw [field?, filter_name hd hg]
      simp [found, ih hgs]
  exact all fields (List.Subset.refl _)

theorem required?_present {α : Type} (read : Json → Option α) (j : Json) :
    required? read (true, j) = read j := rfl

theorem list?_map {α : Type} {read : Json → Option α} {write : α → Json}
    (h : ∀ a, read (write a) = some a) (as : List α) :
    list? read (.array (as.map write)) = some as := by
  rw [list?]
  induction as with
  | nil => rfl
  | cons a as ih => simp [h, ih]

theorem missing?_string (s : Option String) : missing? string? (true, optional s) = some s := by
  cases s <;> rfl

theorem isPlain_optional (s : Option String) : (optional s).isPlain = true := by
  cases s <;> rfl

theorem arePlain_map {α : Type} {write : α → Json} (h : ∀ a, (write a).isPlain = true)
    (as : List α) : arePlain (as.map write) = true := by
  rw [arePlain_iff]
  intro j hj
  obtain ⟨a, -, rfl⟩ := List.mem_map.mp hj
  exact h a

end Json

open Json

theorem Parameter.ofJson?_toJson (p : Parameter) : ofJson? p.toJson = some p := rfl

theorem Parameter.list?_listToJson (ps : List Parameter) :
    list? ofJson? (listToJson ps) = some ps := list?_map ofJson?_toJson ps

theorem Parameter.isPlain_listToJson (ps : List Parameter) : (listToJson ps).isPlain = true :=
  arePlain_map (fun _ => rfl) ps

theorem Receiver.missing?_toJson (r : Option Receiver) :
    missing? ofJson? (true, toJson r) = some r := by
  cases r with
  | none => rfl
  | some r => cases r <;> rfl

theorem Receiver.isPlain_toJson (r : Option Receiver) : (toJson r).isPlain = true :=
  isPlain_optional _

theorem Statement.ofJson?_toJson (s : Statement) : ofJson? s.toJson = some s := by
  cases s <;> rfl

theorem Statement.list?_listToJson (ss : List Statement) :
    list? ofJson? (listToJson ss) = some ss := list?_map ofJson?_toJson ss

theorem Statement.isPlain_listToJson (ss : List Statement) : (listToJson ss).isPlain = true :=
  arePlain_map (fun s => by cases s <;> rfl) ss

theorem Member.ofJson?_toJson (m : Member) : ofJson? m.toJson = some m := by
  have signature : record? ["name", "receiver", "parameters"] (.object [("name", .string m.name),
      ("receiver", Receiver.toJson m.receiver),
      ("parameters", Parameter.listToJson m.parameters)]) =
      some [(true, .string m.name), (true, Receiver.toJson m.receiver),
        (true, Parameter.listToJson m.parameters)] := record?_object rfl (by decide)
  rw [ofJson?, toJson, record?_object]
  · simp only [Option.bind_eq_bind, Option.bind_some, List.map_cons, List.map_nil,
      required?_present, signature, Receiver.missing?_toJson, Parameter.list?_listToJson,
      Statement.list?_listToJson]
    rfl
  · rfl
  · decide

theorem Member.isPlain_toJson (m : Member) : m.toJson.isPlain = true := by
  simp [toJson, isPlain, arePlainFields, Receiver.isPlain_toJson, Parameter.isPlain_listToJson,
    Statement.isPlain_listToJson]

theorem UnitKey.ofJson?_toJson (k : UnitKey) : ofJson? k.toJson = some k := rfl

theorem SourceUnit.ofJson?_toJson (u : SourceUnit) : ofJson? u.toJson = some u := by
  rw [ofJson?, toJson, record?_object]
  · simp only [Option.bind_eq_bind, Option.bind_some, List.map_cons, List.map_nil,
      required?_present, UnitKey.ofJson?_toJson, list?_map Member.ofJson?_toJson]
    rfl
  · rfl
  · decide

theorem SourceUnit.isPlain_toJson (u : SourceUnit) : u.toJson.isPlain = true := by
  simp [toJson, UnitKey.toJson, isPlain, arePlainFields, arePlain_map Member.isPlain_toJson]

theorem Concern.ofJson?_name (c : Concern) : ofJson? (.string c.name) = some c := by
  cases c <;> rfl

theorem Severity.ofJson?_name (s : Severity) : ofJson? (.string s.name) = some s := by
  cases s <;> rfl

theorem Diagnostic.ofJson?_toJson (d : Diagnostic) : ofJson? d.toJson = some d := by
  rw [ofJson?, toJson, fields, record?_object]
  · simp only [Option.bind_eq_bind, Option.bind_some, List.map_cons, List.map_nil,
      required?_present, Concern.ofJson?_name, Severity.ofJson?_name, missing?_string]
    rfl
  · rfl
  · decide

theorem Diagnostic.isPlain_toJson (d : Diagnostic) : d.toJson.isPlain = true := by
  simp [toJson, fields, isPlain, arePlainFields, isPlain_optional]

theorem UnitEntry.ofJson?_toJson (e : UnitEntry) : ofJson? e.toJson = some e := by
  rw [ofJson?, toJson, record?_object]
  · simp only [Option.bind_eq_bind, Option.bind_some, List.map_cons, List.map_nil,
      required?_present, SourceUnit.ofJson?_toJson, list?_map Diagnostic.ofJson?_toJson]
    rfl
  · rfl
  · decide

theorem UnitEntry.isPlain_toJson (e : UnitEntry) : e.toJson.isPlain = true := by
  simp [toJson, isPlain, arePlainFields, SourceUnit.isPlain_toJson,
    arePlain_map Diagnostic.isPlain_toJson]

theorem Candidate.ofJson?_toJson (c : Candidate) : ofJson? c.toJson = some c := by
  rw [ofJson?, toJson, record?_object]
  · simp only [Option.bind_eq_bind, Option.bind_some, List.map_cons, List.map_nil,
      required?_present, Receiver.missing?_toJson, Parameter.list?_listToJson, missing?_string]
    rfl
  · rfl
  · decide

theorem Candidate.isPlain_toJson (c : Candidate) : c.toJson.isPlain = true := by
  simp [toJson, isPlain, arePlainFields, Receiver.isPlain_toJson, Parameter.isPlain_listToJson,
    isPlain_optional]

/-- Lists of candidates with the same encoding are the same. -/
theorem Candidate.eq_of_map_toJson_eq {cs ds : List Candidate}
    (h : cs.map Candidate.toJson = ds.map Candidate.toJson) : cs = ds := by
  have read := list?_map ofJson?_toJson cs
  rw [h, list?_map ofJson?_toJson ds] at read
  exact (Option.some.inj read).symm

theorem Enclosure.name_injective {a b : Enclosure} (h : a.name = b.name) : a = b := by
  cases a <;> cases b <;> first | rfl | exact absurd h (by decide)

theorem Policy.name_injective {a b : Policy} (h : a.name = b.name) : a = b := by
  cases a <;> cases b <;> first | rfl | exact absurd h (by decide)

end FormulaBinding
