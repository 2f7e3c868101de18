import FormulaBinding.Proofs.Body.Shape

/-!
# One formula under every scheme

A formula is a text with names in it; a scheme writes each name between its two literals. Where
neither the text nor the names have brackets or braces, the placeholders found in what is written
are the names again, whatever the scheme. What is built from the template therefore depends on the
scheme only where the template itself is kept.
-/

namespace FormulaBinding

/-- The characters that some scheme encloses names with. -/
def Enclosure.marks : List Char := ['[', ']', '{', '}']

/-- A name in a formula, with the text behind it up to the next one. -/
structure Slot where
  name : List Char
  behind : List Char
  named : name ≠ []
  unmarked : ∀ c ∈ name ++ behind, c ∉ Enclosure.marks

/-- A formula for which no scheme is chosen yet: the text in front of its first name, and its names,
each with the text behind it. Texts may be empty, names may not. -/
structure Formula where
  start : List Char
  slots : List Slot
  unmarked : ∀ c ∈ start, c ∉ Enclosure.marks

def Statement.withTemplate (template : String) : Statement → Statement
  | declareEvaluator evaluator _ isMutable => declareEvaluator evaluator template isMutable
  | s => s

namespace Slot

def write (scheme : Enclosure) (s : Slot) : List Char :=
  scheme.left ++ (s.name ++ (scheme.right ++ s.behind))

end Slot

namespace Formula

def template (f : Formula) (scheme : Enclosure) : String :=
  String.ofList (f.start ++ f.slots.flatMap (Slot.write scheme))

def names (f : Formula) : List (List Char) := f.slots.map Slot.name

end Formula

namespace Template

variable {scheme : Enclosure}

theorem matchHere?_of_notMem {c : Char} (h : c ∉ Enclosure.marks) (cs : List Char) :
    matchHere? scheme (c :: cs) = none := by
  have other : ∀ p ∈ Enclosure.marks, ¬ p = c := fun p hp same => h (same ▸ hp)
  have noStart : Text.dropStart? scheme.left (c :: cs) = none := by
    cases scheme with
    | square => exact if_neg (other '[' (by decide))
    | curly => exact if_neg (other '{' (by decide))
    | doubleCurly => exact if_neg (other '{' (by decide))
  rw [matchHere?, noStart]

theorem names_append {text : List Char} (h : ∀ c ∈ text, c ∉ Enclosure.marks) (cs : List Char) :
    names scheme (text ++ cs) = names scheme cs := by
  induction text with
  | nil => rfl
  | cons c text ih =>
    have skipped : matchHere? scheme (c :: (text ++ cs)) = none :=
      matchHere?_of_notMem (h c List.mem_cons_self) _
    rw [List.cons_append, names]
    split
    · next found => simp [skipped] at found
    · exact ih fun d hd => h d (List.mem_cons_of_mem c hd)

/-- A written name is found with what follows it: it ends in front of the right literal, since it
has no marks. -/
theorem matchHere?_written {name : List Char} (named : name ≠ [])
    (h : ∀ c ∈ name, c ∉ Enclosure.marks) (rest : List Char) :
    matchHere? scheme (scheme.left ++ (name ++ (scheme.right ++ rest))) = some (name, rest) := by
  have marked : scheme.closer ∈ Enclosure.marks := by cases scheme <;> decide
  have inside : ∀ c ∈ name, (c != scheme.closer) = true := fun c hc =>
    bne_iff_ne.mpr fun same => h c hc (same ▸ marked)
  obtain ⟨closing, right⟩ : ∃ tail, scheme.right = scheme.closer :: tail := by
    cases scheme <;> exact ⟨_, rfl⟩
  have taken : (name ++ (scheme.right ++ rest)).takeWhile (· != scheme.closer) = name := by
    rw [List.takeWhile_append_of_pos inside, right]
    simp
  have left : (name ++ (scheme.right ++ rest)).dropWhile (· != scheme.closer) =
      scheme.right ++ rest := by
    rw [List.dropWhile_append_of_pos inside, right]
    simp
  obtain ⟨c, cs, rfl⟩ := List.exists_cons_of_ne_nil named
  simp only [matchHere?, Text.dropStart?_eq_some_iff.mpr rfl, taken, left]

theorem names_written (s : Slot) (rest : List Char) :
    names scheme (s.write scheme ++ rest) = s.name :: names scheme rest := by
  have plain : ∀ c ∈ s.name, c ∉ Enclosure.marks := fun c hc =>
    s.unmarked c (List.mem_append_left _ hc)
  have found : matchHere? scheme (scheme.left ++ (s.name ++ (scheme.right ++ (s.behind ++ rest)))) =
      some (s.name, s.behind ++ rest) := matchHere?_written s.named plain _
  have shape : s.write scheme ++ rest =
      scheme.left ++ (s.name ++ (scheme.right ++ (s.behind ++ rest))) := by
    simp only [Slot.write, List.append_assoc]
  rw [shape]
  obtain ⟨c, cs, start⟩ : ∃ c cs, scheme.left = c :: cs := by cases scheme <;> exact ⟨_, _, rfl⟩
  rw [start, List.cons_append] at found ⊢
  rw [names]
  split
  · next name after same =>
    rw [found] at same
    cases same
    rw [names_append fun c hc => s.unmarked c (List.mem_append_right _ hc)]
  · next none =>
    rw [found] at none
    cases none

/-- The names found in the template of a formula are those of the formula. -/
theorem names_template (f : Formula) (scheme : Enclosure) :
    names scheme (f.template scheme).toList = f.names := by
  rw [Formula.template, String.toList_ofList, names_append f.unmarked, Formula.names]
  induction f.slots with
  | nil => rw [List.flatMap_nil, names, List.map_nil]
  | cons s slots ih => rw [List.flatMap_cons, names_written, ih, List.map_cons]

/-- Placeholders are kept or refused by their names alone. -/
theorem map_name_collect_congr (s₁ s₂ : Enclosure) (all seen : List (List Char)) :
    (collect s₁ all seen).map (List.map Placeholder.name) =
      (collect s₂ all seen).map (List.map Placeholder.name) := by
  induction all generalizing seen with
  | nil => rfl
  | cons name all ih =>
    rw [collect, collect]
    split_ifs
    · rfl
    · exact ih seen
    · rfl
    · have later := ih (name :: seen)
      cases h₁ : collect s₁ all (name :: seen) <;> cases h₂ : collect s₂ all (name :: seen) <;>
        simp_all [Except.map, placeholder]

/-- Within the limit of length, a formula has the same placeholder names, or is refused for the same
reason, under any two schemes. -/
theorem map_name_placeholders_congr (f : Formula) {s₁ s₂ : Enclosure}
    (h₁ : (f.template s₁).utf8ByteSize ≤ maxBytes) (h₂ : (f.template s₂).utf8ByteSize ≤ maxBytes) :
    (placeholders s₁ (f.template s₁)).map (List.map Placeholder.name) =
      (placeholders s₂ (f.template s₂)).map (List.map Placeholder.name) := by
  rw [placeholders, placeholders, if_neg (Nat.not_lt.mpr h₁), if_neg (Nat.not_lt.mpr h₂),
    names_template, names_template]
  exact map_name_collect_congr s₁ s₂ f.names []

end Template

/-- Whether parameters and placeholders match depends on the names of both alone. -/
theorem Outcome.compare_congr (parameters : List Parameter) {ps qs : List Placeholder}
    (h : ps.map Placeholder.name = qs.map Placeholder.name) :
    compare parameters ps = compare parameters qs := by
  rw [compare, compare, h]

namespace BodyBuilder

/-- The template stands in the first statement of a body and nowhere else. -/
theorem map_withTemplate_bodyOf (parameters : List Parameter) (names : List String)
    (template other : String) :
    (bodyOf parameters template names).map (Statement.withTemplate other) =
      bodyOf parameters other names := by
  simp [bodyOf, binds, Statement.withTemplate, Function.comp_def]

theorem map_withTemplate_noExpression (parameters : List Parameter) (other : String) :
    (start parameters).noExpression.map (Statement.withTemplate other) =
      (start parameters).noExpression := by
  simp [noExpression, discards, Statement.withTemplate, Function.comp_def]

/-- What is built for a template depends on the names of its placeholders alone, but for the
template itself. -/
theorem map_withTemplate_evaluation (parameters : List Parameter) {ps qs : List Placeholder}
    (h : ps.map Placeholder.name = qs.map Placeholder.name) (template other : String) :
    (evaluation parameters template ps (Outcome.compare parameters ps)).map
        (Statement.withTemplate other) =
      evaluation parameters other qs (Outcome.compare parameters qs) := by
  rw [evaluation_eq_bodyOf, evaluation_eq_bodyOf, map_withTemplate_bodyOf, matched_names,
    matched_names, h]

end BodyBuilder

namespace Formula

variable (f : Formula) (c : Candidate) (policy : Policy) {s₁ s₂ : Enclosure}

def candidate (scheme : Enclosure) : Candidate := { c with template := some (f.template scheme) }

/-- The body and the diagnostics of a candidate, but for the template in the body. -/
theorem body_candidate_congr (h₁ : (f.template s₁).utf8ByteSize ≤ Template.maxBytes)
    (h₂ : (f.template s₂).utf8ByteSize ≤ Template.maxBytes) :
    ((f.candidate c s₁).body s₁ policy).map
        (List.map (Statement.withTemplate (f.template s₂))) id =
      (f.candidate c s₂).body s₂ policy := by
  have same := Template.map_name_placeholders_congr f h₁ h₂
  simp only [candidate, Candidate.body]
  cases p₁ : Template.placeholders s₁ (f.template s₁) with
  | error e =>
    cases p₂ : Template.placeholders s₂ (f.template s₂) with
    | error e' =>
      rw [p₁, p₂] at same
      cases same
      exact Prod.ext (BodyBuilder.map_withTemplate_noExpression _ _) rfl
    | ok qs =>
      rw [p₁, p₂] at same
      cases same
  | ok ps =>
    cases p₂ : Template.placeholders s₂ (f.template s₂) with
    | error e' =>
      rw [p₁, p₂] at same
      cases same
    | ok qs =>
      rw [p₁, p₂] at same
      have names : ps.map Placeholder.name = qs.map Placeholder.name := Except.ok.inj same
      refine Prod.ext (BodyBuilder.map_withTemplate_evaluation _ names _ _) ?_
      simp only [Prod.map_snd, id_eq, Outcome.compare_congr _ names]
      rfl

/-- The scheme makes no difference. Where the templates of a formula under two schemes are both
within the limit of length, the two members are equal but for the template in their bodies, and the
same is reported. The placeholders of an accepted template have the names of the formula, each once
and in the order in which they appear first. -/
theorem build_candidate_agrees (h₁ : (f.template s₁).utf8ByteSize ≤ Template.maxBytes)
    (h₂ : (f.template s₂).utf8ByteSize ≤ Template.maxBytes) :
    let one := (f.candidate c s₁).build s₁ policy
    let other := (f.candidate c s₂).build s₂ policy
    other.diagnostics = one.diagnostics ∧
      other.member = { one.member with
        body := one.member.body.map (Statement.withTemplate (f.template s₂)) } ∧
      (Template.placeholders s₁ (f.template s₁)).map (List.map Placeholder.name) =
        (Template.placeholders s₂ (f.template s₂)).map (List.map Placeholder.name) ∧
      ∀ found, Template.placeholders s₁ (f.template s₁) = .ok found →
        found.map Placeholder.name = f.names.eraseDups.map String.ofList := by
  have bodies := f.body_candidate_congr c policy h₁ h₂
  refine ⟨?_, ?_, Template.map_name_placeholders_congr f h₁ h₂, fun found ok => ?_⟩
  · simp only [Candidate.build, ← bodies]
    rfl
  · simp only [Candidate.build, ← bodies]
    rfl
  · rw [Template.map_name_placeholders ok, Template.distinctNames, Template.names_template]

/-- Names stand next to each other, one appears twice, and one names no parameter. -/
def crowded : Formula where
  start := []
  slots :=
    [⟨['a'], [], by decide, by decide⟩, ⟨['b', ' '], ['*'], by decide, by decide⟩,
      ⟨['a'], ['+', '1'], by decide, by decide⟩]
  unmarked := by decide

theorem build_candidate_agrees_of_crowded :
    let c : Candidate :=
      { container := "Shape", scope := "crate", name := "area", receiver := none,
        parameters := [⟨"a", "f64"⟩], template := none, fixedShape := true }
    crowded.template .square = "[a][b ]*[a]+1" ∧
      crowded.template .doubleCurly = "\x7b\x7ba\x7d\x7d\x7b\x7bb \x7d\x7d*\x7b\x7ba\x7d\x7d+1" ∧
      (crowded.template .square).utf8ByteSize ≤ Template.maxBytes ∧
      (crowded.template .doubleCurly).utf8ByteSize ≤ Template.maxBytes ∧
      ((crowded.candidate c .doubleCurly).build .doubleCurly .strict).diagnostics =
        ((crowded.candidate c .square).build .square .strict).diagnostics ∧
      ∃ found, Template.placeholders .square (crowded.template .square) = .ok found ∧
        found.map Placeholder.name = ["a", "b "] := by
  intro c
  have shortSquare : (crowded.template .square).utf8ByteSize ≤ Template.maxBytes := by
    decide +kernel
  have shortCurly : (crowded.template .doubleCurly).utf8ByteSize ≤ Template.maxBytes := by
    decide +kernel
  have agrees := crowded.build_candidate_agrees c .strict shortSquare shortCurly
  have names : crowded.names.eraseDups.map String.ofList = ["a", "b "] := by decide
  have isOk : (Template.placeholders .square (crowded.template .square)).isOk = true := by
    decide +kernel
  refine ⟨by decide +kernel, by decide +kernel, shortSquare, shortCurly, agrees.1, ?_⟩
  cases ok : Template.placeholders .square (crowded.template .square) with
  | error e =>
    rw [ok] at isOk
    cases isOk
  | ok found => exact ⟨found, rfl, (agrees.2.2.2 found ok).trans names⟩

end Formula
end FormulaBinding
