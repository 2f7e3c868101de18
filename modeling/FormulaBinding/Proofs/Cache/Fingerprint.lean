import FormulaBinding.Proofs.Declaration.Prelude
import FormulaBinding.Proofs.Generation.Acceptance
import FormulaBinding.Proofs.Json.Coding

/-!
# What a fingerprint is taken of

The text behind a fingerprint tells the candidates and every part of the configuration that a unit
depends on. So two groups with one text have the same unit and the same diagnostics, whichever
accepted configurations they were generated with. Where markers are proper, the bytes that are
hashed tell all of the configuration.
-/

namespace FormulaBinding

private theorem toList_loop (bs : ByteArray) (i : ℕ) (r : List UInt8) :
    ByteArray.toList.loop bs i r = r.reverse ++ bs.data.toList.drop i := by
  have size : bs.size = bs.data.toList.length := rfl
  fun_induction ByteArray.toList.loop bs i r with
  | case1 i r inside ih =>
    rw [size] at inside
    have here : bs.get! i = bs.data.toList[i] := by
      rw [ByteArray.get!, getElem!_pos bs.data i inside, Array.getElem_toList]
    rw [ih, List.drop_eq_getElem_cons inside, here, List.reverse_cons, List.append_assoc]
    rfl
  | case2 i r outside =>
    rw [List.drop_of_length_le (by omega), List.append_nil]

theorem toList_eq_data (bs : ByteArray) : bs.toList = bs.data.toList := by
  rw [ByteArray.toList, toList_loop, List.drop_zero]
  rfl

/-- Texts with the same bytes are the same. -/
theorem toUTF8_toList_injective {s t : String} (h : s.toUTF8.toList = t.toUTF8.toList) : s = t := by
  rw [toList_eq_data, toList_eq_data] at h
  have same : s.toUTF8 = t.toUTF8 := ByteArray.ext (Array.toList_inj.mp h)
  have read := Json.fromUTF8?_toUTF8 s
  rw [same, Json.fromUTF8?_toUTF8] at read
  exact (Option.some.inj read).symm

theorem Configuration.isPlain_toJson (c : Configuration) : c.toJson.isPlain = true := rfl

/-- Configurations with one encoding agree in all that a unit is generated with. -/
theorem Configuration.eq_of_toJson_eq {c d : Configuration} (h : c.toJson = d.toJson) :
    d = { c with marker := d.marker } := by
  simp only [toJson, Json.object.injEq, List.cons.injEq, Prod.mk.injEq, Json.string.injEq,
    true_and, and_true] at h
  obtain ⟨-, enclosure, evaluator, runtime, policy, suffix⟩ := h
  cases c
  cases d
  cases Enclosure.name_injective enclosure
  cases Policy.name_injective policy
  simp_all

theorem Configuration.marker_text_eq_of_toJson_eq {c d : Configuration}
    (h : c.toJson = d.toJson) : c.marker.text = d.marker.text := by
  simp only [toJson, Json.object.injEq, List.cons.injEq, Prod.mk.injEq, Json.string.injEq,
    true_and] at h
  exact h.1

/-- The text behind a fingerprint determines the encodings that it is made of. -/
theorem toJson_eq_of_fingerprintText_eq {c d : Configuration} {cs ds : List Candidate}
    (h : fingerprintText c cs = fingerprintText d ds) : c.toJson = d.toJson ∧ cs = ds := by
  have plain (c : Configuration) (cs : List Candidate) :
      (Json.array [c.toJson, .array (cs.map Candidate.toJson)]).isPlain = true := by
    have inner := Json.arePlain_map Candidate.isPlain_toJson cs
    simp [Json.isPlain, Json.arePlain, c.isPlain_toJson, inner]
  have same := Json.text_append_injective (plain c cs) (plain d ds) h
  simp only [Json.array.injEq, List.cons.injEq, and_true] at same
  exact ⟨same.1, Candidate.eq_of_map_toJson_eq same.2⟩

theorem eq_of_fingerprintText_eq {c d : Configuration} {cs ds : List Candidate}
    (h : fingerprintText c cs = fingerprintText d ds) :
    d = { c with marker := d.marker } ∧ cs = ds := by
  obtain ⟨configurations, candidates⟩ := toJson_eq_of_fingerprintText_eq h
  exact ⟨Configuration.eq_of_toJson_eq configurations, candidates⟩

/-- The bytes that are hashed for a fingerprint are those of one configuration and one list of
candidates only. The marker is written as one path, so it has to be one that can be made: other
markers can have the same path. -/
theorem fingerprintText_bytes_eq_iff {c d : Configuration} {cs ds : List Candidate}
    (hc : Marker.make c.marker.scope c.marker.name = .ok c.marker)
    (hd : Marker.make d.marker.scope d.marker.name = .ok d.marker) :
    (fingerprintText c cs).toUTF8.toList = (fingerprintText d ds).toUTF8.toList ↔
      c = d ∧ cs = ds := by
  constructor
  · intro bytes
    obtain ⟨encodings, candidates⟩ :=
      toJson_eq_of_fingerprintText_eq (toUTF8_toList_injective bytes)
    have others := Configuration.eq_of_toJson_eq encodings
    have markers : c.marker = d.marker :=
      Marker.eq_of_text_eq hc hd (Configuration.marker_text_eq_of_toJson_eq encodings)
    refine ⟨?_, candidates⟩
    rw [others, ← markers]
  · rintro ⟨rfl, rfl⟩
    rfl

/-- A missing template and one that reads like it are told apart, and so are a marker without a
module and one in a module of its own name. -/
theorem fingerprintText_bytes_of_nullTemplate :
    let candidate (template : Option String) : Candidate :=
      ⟨"Rates", "crate", "compound", none, [⟨"r", "f64"⟩], template, true⟩
    let configuration (scope : String) : Configuration := { marker := ⟨scope, "rule"⟩ }
    Marker.make "" "rule" = .ok ⟨"", "rule"⟩ ∧ Marker.make "rule" "rule" = .ok ⟨"rule", "rule"⟩ ∧
      (fingerprintText (configuration "") [candidate none]).toUTF8.toList ≠
        (fingerprintText (configuration "") [candidate (some "null")]).toUTF8.toList ∧
      (fingerprintText (configuration "") []).toUTF8.toList ≠
        (fingerprintText (configuration "rule") []).toUTF8.toList := by
  intro candidate configuration
  have alone : Marker.make "" "rule" = .ok ⟨"", "rule"⟩ := by decide +kernel
  have within : Marker.make "rule" "rule" = .ok ⟨"rule", "rule"⟩ := by decide +kernel
  refine ⟨alone, within, ?_, ?_⟩
  · rw [Ne, fingerprintText_bytes_eq_iff alone alone]
    decide
  · rw [Ne, fingerprintText_bytes_eq_iff alone within]
    decide

namespace Generator

/-- What is generated for a group depends only on the text behind its fingerprint. -/
theorem render_eq_of_fingerprintText_eq {g h : Generator} (hg : g.IsAccepted) (hh : h.IsAccepted)
    {cs ds : List Candidate}
    (text : fingerprintText g.configuration cs = fingerprintText h.configuration ds)
    (k : UnitKey) : g.render k cs = h.render k ds := by
  obtain ⟨configuration, rfl⟩ := eq_of_fingerprintText_eq text
  have context : h.context = g.context := by
    have same : h.configuration.accept = g.configuration.accept := by rw [configuration]; rfl
    rw [hh.accept_eq, hg.accept_eq] at same
    exact Except.ok.inj same
  have digest : fingerprint h.configuration cs = fingerprint g.configuration cs := by
    rw [fingerprint, fingerprint, text]
  have enclosure : h.configuration.enclosure = g.configuration.enclosure := by rw [configuration]
  have policy : h.configuration.policy = g.configuration.policy := by rw [configuration]
  simp only [render, context, digest, enclosure, policy]

end Generator

end FormulaBinding
