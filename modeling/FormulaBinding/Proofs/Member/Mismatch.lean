import FormulaBinding.Proofs.Body.Shape
import FormulaBinding.Proofs.Generation.Conservation

/-!
# What is reported about a candidate

A candidate without a template, one whose template is refused, and one whose parameters and
placeholders have different names are reported, each in its own way; any other candidate is not. The
names that one side has and the other lacks are listed in order. Only the first two kinds get a body
that gives back no number.
-/

namespace FormulaBinding

namespace Text

/-- Adding a name to names in increasing order keeps the order. -/
theorem pairwise_insertName {name : String} {ns : List String} (h : ns.Pairwise (· < ·)) :
    (insertName name ns).Pairwise (· < ·) := by
  induction ns with
  | nil => exact List.pairwise_singleton _ _
  | cons n ns ih =>
    obtain ⟨first, rest⟩ := List.pairwise_cons.mp h
    rw [insertName]
    split_ifs with before same
    · refine List.pairwise_cons.mpr ⟨fun m hm => ?_, h⟩
      rcases List.mem_cons.mp hm with rfl | hm
      · exact before
      · exact String.lt_trans before (first m hm)
    · exact h
    · refine List.pairwise_cons.mpr ⟨fun m hm => ?_, ih rest⟩
      rcases mem_insertName.mp hm with rfl | hm
      · -- The name is neither before the first one nor the first one itself.
        by_contra after
        exact same (String.le_antisymm (String.not_lt.mp after) (String.not_lt.mp before))
      · exact first m hm

theorem pairwise_nameSet (names : List String) : (nameSet names).Pairwise (· < ·) := by
  induction names with
  | nil => exact .nil
  | cons n ns ih => exact pairwise_insertName ih

/-- What stands in front of a character and behind it, if neither of two texts has it earlier. -/
theorem eq_of_append_cons {c : Char} {xs ys us vs : List Char} (hx : c ∉ xs) (hy : c ∉ ys)
    (same : xs ++ c :: us = ys ++ c :: vs) : xs = ys ∧ us = vs := by
  have before {zs : List Char} (hz : c ∉ zs) (ws : List Char) :
      (zs ++ c :: ws).takeWhile (· != c) = zs := by
    rw [List.takeWhile_append_of_pos fun z hz' => by
      simpa using fun e : z = c => hz (e ▸ hz')]
    simp
  have heads := before hx us
  rw [same, before hy vs] at heads
  subst heads
  exact ⟨rfl, by simpa using same⟩

/-- Whether a list has exactly the names with a property, in increasing order of code points. -/
structure Lists (ns : List String) (p : String → Prop) : Prop where
  increasing : ns.Pairwise (· < ·)
  mem_iff : ∀ n, n ∈ ns ↔ p n

end Text

namespace Outcome

/-- Whether an outcome sorts the names of parameters and those of placeholders. -/
structure Sorts (o : Outcome) (parameters placeholders : List String) : Prop where
  matched : Text.Lists o.matched fun n => n ∈ parameters ∧ n ∈ placeholders
  unused : Text.Lists o.unused fun n => n ∈ parameters ∧ n ∉ placeholders
  undeclared : Text.Lists o.undeclared fun n => n ∈ placeholders ∧ n ∉ parameters

theorem sorts_compare (ps : List Parameter) (qs : List Placeholder) :
    (compare ps qs).Sorts (ps.map Parameter.name) (qs.map Placeholder.name) := by
  have declared := Text.pairwise_nameSet (ps.map Parameter.name)
  have referenced := Text.pairwise_nameSet (qs.map Placeholder.name)
  constructor
  case matched => exact ⟨declared.filter _, fun n => by simp [compare, Text.mem_nameSet]⟩
  case unused => exact ⟨declared.filter _, fun n => by simp [compare, Text.mem_nameSet]⟩
  case undeclared => exact ⟨referenced.filter _, fun n => by simp [compare, Text.mem_nameSet]⟩

variable {o : Outcome} {parameters placeholders : List String}

theorem isSuccess_eq_true : o.isSuccess = true ↔ o.unused = [] ∧ o.undeclared = [] := by
  rw [isSuccess, Bool.and_eq_true, List.isEmpty_iff, List.isEmpty_iff]

/-- Both sides are the same exactly if nothing is left over on either. -/
theorem Sorts.isSuccess_iff (h : o.Sorts parameters placeholders) :
    o.isSuccess = true ↔ ∀ n, n ∈ parameters ↔ n ∈ placeholders := by
  rw [isSuccess_eq_true, List.eq_nil_iff_forall_not_mem, List.eq_nil_iff_forall_not_mem]
  simp only [h.unused.mem_iff, h.undeclared.mem_iff, not_and, not_not]
  exact ⟨fun both n => ⟨both.1 n, both.2 n⟩, fun same => ⟨fun n => (same n).mp, fun n => (same n).mpr⟩⟩

/-- Whether the parts of an outcome have no name in common, and make up both sides: the matched
names with the unused ones are those of parameters, and with the undeclared ones those of
placeholders. -/
structure Partitions (o : Outcome) (parameters placeholders : List String) : Prop where
  matched_unused : o.matched.Disjoint o.unused
  matched_undeclared : o.matched.Disjoint o.undeclared
  unused_undeclared : o.unused.Disjoint o.undeclared
  parameters : ∀ n, n ∈ o.matched ∨ n ∈ o.unused ↔ n ∈ parameters
  placeholders : ∀ n, n ∈ o.matched ∨ n ∈ o.undeclared ↔ n ∈ placeholders

theorem Sorts.partitions (h : o.Sorts parameters placeholders) :
    o.Partitions parameters placeholders := by
  have matched := h.matched.mem_iff
  have unused := h.unused.mem_iff
  have undeclared := h.undeclared.mem_iff
  constructor
  case matched_unused => exact fun n hn other => ((unused n).mp other).2 ((matched n).mp hn).2
  case matched_undeclared =>
    exact fun n hn other => ((undeclared n).mp other).2 ((matched n).mp hn).1
  case unused_undeclared =>
    exact fun n hn other => ((unused n).mp hn).2 ((undeclared n).mp other).1
  case parameters =>
    intro n
    rw [matched, unused, ← and_or_left]
    exact and_iff_left (em _)
  case placeholders =>
    intro n
    rw [matched, undeclared, and_comm, ← and_or_left]
    exact and_iff_left (em _)

end Outcome

/-! ## Messages -/

namespace Diagnostic

/-- Whether a text shows some names in a row: each between backquotes, and a comma and a blank
between two of them. -/
inductive Shows : List String → String → Prop
  | one (n : String) : Shows [n] ("`" ++ n ++ "`")
  | cons (n : String) {ns : List String} {text : String} (rest : Shows ns text) :
      Shows (n :: ns) ("`" ++ n ++ "`" ++ ", " ++ text)

theorem shows_listed {ns : List String} (h : ns ≠ []) : Shows ns (listed ns) := by
  induction ns with
  | nil => exact absurd rfl h
  | cons n ns ih =>
    cases ns with
    | nil => exact Shows.one n
    | cons m ms =>
      have first : listed (n :: m :: ms) = "`" ++ n ++ "`" ++ ", " ++ listed (m :: ms) := by
        simp [listed, toString, String.append_assoc]
      exact first ▸ (ih (List.cons_ne_nil m ms)).cons n

/-- A text shows one row of names only, if none of them has a backquote: what is shown can be told
from what follows, as long as that does not start with a comma. -/
theorem Shows.eq_of_append {ns ms : List String} {text text' : String} (hn : Shows ns text)
    (hm : Shows ms text') (plain : ∀ n ∈ ns, '\x60' ∉ n.toList)
    (plain' : ∀ m ∈ ms, '\x60' ∉ m.toList) {u v : List Char} (hu : u.head? ≠ some ',')
    (hv : v.head? ≠ some ',') (same : text.toList ++ u = text'.toList ++ v) :
    ns = ms ∧ u = v := by
  induction hn generalizing ms text' with
  | one n =>
    have hn := plain n (by simp)
    cases hm with
    | one m =>
      obtain ⟨names, rfl⟩ :=
        Text.eq_of_append_cons hn (plain' m (by simp)) (by simpa using same)
      exact ⟨by rw [String.toList_inj.mp names], rfl⟩
    | cons m rest =>
      obtain ⟨-, rfl⟩ := Text.eq_of_append_cons hn (plain' m (by simp)) (by simpa using same)
      simp at hu
  | cons n rest ih =>
    have hn := plain n (by simp)
    cases hm with
    | one m =>
      obtain ⟨-, rfl⟩ := Text.eq_of_append_cons hn (plain' m (by simp)) (by simpa using same)
      simp at hv
    | cons m rest' =>
      obtain ⟨names, shown⟩ :=
        Text.eq_of_append_cons hn (plain' m (by simp)) (by simpa using same)
      obtain ⟨rfl, rfl⟩ := ih rest' (fun k hk => plain k (List.mem_cons_of_mem _ hk))
        (fun k hk => plain' k (List.mem_cons_of_mem _ hk)) (by simpa using shown)
      exact ⟨by rw [String.toList_inj.mp names], rfl⟩

/-- The text that tells of the names that only one side has. -/
inductive Tells (unused undeclared : List String) : String → Prop
  | unused {text : String} (none : undeclared = []) (names : Shows unused text) :
      Tells unused undeclared ("parameter(s) not used by the template: " ++ text)
  | undeclared {text : String} (none : unused = []) (names : Shows undeclared text) :
      Tells unused undeclared ("placeholder(s) without a matching parameter: " ++ text)
  | both {text text' : String} (names : Shows unused text) (names' : Shows undeclared text') :
      Tells unused undeclared ("parameter(s) not used by the template: " ++ text ++
        "; " ++ ("placeholder(s) without a matching parameter: " ++ text'))

/-- Whether a text tells of no other names, names with backquotes aside. -/
def TellsOnly (unused undeclared : List String) (text : String) : Prop :=
  (∀ n ∈ unused ++ undeclared, '\x60' ∉ n.toList) →
    ∀ unused' undeclared', (∀ n ∈ unused' ++ undeclared', '\x60' ∉ n.toList) →
      Tells unused' undeclared' text → unused' = unused ∧ undeclared' = undeclared

theorem Tells.only {unused undeclared : List String} {text : String}
    (h : Tells unused undeclared text) : TellsOnly unused undeclared text := by
  intro plain unused' undeclared' plain' h'
  generalize same : text = text' at h'
  simp only [List.mem_append, or_imp, forall_and] at plain plain'
  have texts := congrArg String.toList same
  cases h with
  | unused none names =>
    cases h' with
    | unused none' names' =>
      obtain ⟨rfl, -⟩ := names'.eq_of_append names plain'.1 plain.1 (u := []) (v := [])
        (by simp) (by simp) (by simpa using texts.symm)
      exact ⟨rfl, none'.trans none.symm⟩
    | undeclared => simp at texts
    | @both _ other names' _ =>
      obtain ⟨-, ends⟩ := names.eq_of_append names' plain.1 plain'.1 (u := [])
        (v := ("; " ++ ("placeholder(s) without a matching parameter: " ++ other)).toList)
        (by simp) (by simp) (by simpa using texts)
      simp at ends
  | undeclared none names =>
    cases h' with
    | undeclared none' names' =>
      obtain ⟨rfl, -⟩ := names'.eq_of_append names plain'.2 plain.2 (u := []) (v := [])
        (by simp) (by simp) (by simpa using texts.symm)
      exact ⟨none'.trans none.symm, rfl⟩
    | unused => simp at texts
    | both => simp at texts
  | @both _ other names others =>
    cases h' with
    | unused none' names' =>
      obtain ⟨-, ends⟩ := names'.eq_of_append names plain'.1 plain.1 (u := [])
        (v := ("; " ++ ("placeholder(s) without a matching parameter: " ++ other)).toList)
        (by simp) (by simp) (by simpa using texts.symm)
      simp at ends
    | undeclared => simp at texts
    | both names' others' =>
      simp only [String.append_assoc, String.toList_append, List.append_cancel_left_eq] at texts
      obtain ⟨rfl, texts⟩ := names'.eq_of_append names plain'.1 plain.1 (by simp) (by simp)
        texts.symm
      obtain ⟨rfl, -⟩ := others'.eq_of_append others plain'.2 plain.2 (u := []) (v := [])
        (by simp) (by simp) (by simpa using texts)
      exact ⟨rfl, rfl⟩

/-- What is told unless both sides have the same names. -/
theorem tells_problems {o : Outcome} (h : o.isSuccess = false) :
    Tells o.unused o.undeclared (String.intercalate "; " (problems o)) := by
  by_cases unused : o.unused = []
  · by_cases undeclared : o.undeclared = []
    · rw [Outcome.isSuccess_eq_true.mpr ⟨unused, undeclared⟩] at h
      cases h
    · simpa [problems, unused, undeclared] using
        Tells.undeclared unused (shows_listed undeclared)
  · by_cases undeclared : o.undeclared = []
    · simpa [problems, unused, undeclared] using Tells.unused undeclared (shows_listed unused)
    · simpa [problems, unused, undeclared, String.append_assoc] using
        Tells.both (shows_listed unused) (shows_listed undeclared)

end Diagnostic

/-! ## Reports -/

/-- The body of a candidate whose template cannot be used. -/
def Candidate.stub (c : Candidate) : List Statement :=
  c.parameters.map (fun p => .discard p.name) ++ [.noExpression]

/-- What is reported about a candidate, and which body it gets, by its template. -/
structure Candidate.ReportsMismatch (c : Candidate) (scheme : Enclosure) (policy : Policy)
    (b : BuiltMember) : Prop where
  atMostOne : b.diagnostics.length ≤ 1
  severity : ∀ d ∈ b.diagnostics, d.concern = .missingTemplate ∧ d.severity = .warning ∨
    d.concern = .invalidTemplate ∧ d.severity = .error ∨
    d.concern = .mismatch ∧ d.severity = policy.severity
  missing : (∃ d ∈ b.diagnostics, d.concern = .missingTemplate) ↔ c.template = none
  invalid : (∃ d ∈ b.diagnostics, d.concern = .invalidTemplate) ↔
    ∃ template e, c.template = some template ∧ Template.placeholders scheme template = .error e
  /-- Names of parameters and of placeholders count as sets, however often they occur. -/
  mismatch : (∃ d ∈ b.diagnostics, d.concern = .mismatch) ↔
    ∃ template found, c.template = some template ∧
      Template.placeholders scheme template = .ok found ∧
      ¬ ∀ n, n ∈ c.parameters.map Parameter.name ↔ n ∈ found.map Placeholder.name
  /-- Each part of the outcome lists its names in increasing order of code points. -/
  sorts (found : List Placeholder) : (Outcome.compare c.parameters found).Sorts
    (c.parameters.map Parameter.name) (found.map Placeholder.name)
  partitions (found : List Placeholder) : (Outcome.compare c.parameters found).Partitions
    (c.parameters.map Parameter.name) (found.map Placeholder.name)
  /-- A mismatch is told by the names that are left over. -/
  message : ∀ d ∈ b.diagnostics, d.concern = .mismatch → ∃ template found text,
    c.template = some template ∧ Template.placeholders scheme template = .ok found ∧
      Diagnostic.Tells (Outcome.compare c.parameters found).unused
        (Outcome.compare c.parameters found).undeclared text ∧
      Diagnostic.TellsOnly (Outcome.compare c.parameters found).unused
        (Outcome.compare c.parameters found).undeclared text ∧
      d.message = "`" ++ c.name ++ "`: " ++ text
  /-- Without a usable template no number is given back. -/
  stub : (∃ d ∈ b.diagnostics, d.concern = .missingTemplate ∨ d.concern = .invalidTemplate) →
    b.member.body = c.stub
  /-- With one, a number is. -/
  body : (∀ d ∈ b.diagnostics, d.concern ≠ .missingTemplate ∧ d.concern ≠ .invalidTemplate) →
    .noExpression ∉ b.member.body

namespace Candidate

variable {c : Candidate} {scheme : Enclosure} {policy : Policy} {template : String}
  {found : List Placeholder}

theorem noExpression_notMem_bodyOf (ps : List Parameter) (template : String)
    (names : List String) : .noExpression ∉ BodyBuilder.bodyOf ps template names := by
  simp [BodyBuilder.bodyOf, BodyBuilder.binds]

/-- A candidate without a usable template has one report, which says why. -/
theorem reportsMismatch_of_stub {d : Diagnostic}
    (reported : (c.build scheme policy).diagnostics = [d])
    (body : (c.build scheme policy).member.body = c.stub)
    (why : c.template = none ∧ d.concern = .missingTemplate ∧ d.severity = .warning ∨
      (∃ template e, c.template = some template ∧
        Template.placeholders scheme template = .error e) ∧
          d.concern = .invalidTemplate ∧ d.severity = .error) :
    c.ReportsMismatch scheme policy (c.build scheme policy) := by
  constructor
  case sorts => exact fun found => Outcome.sorts_compare c.parameters found
  case partitions => exact fun found => (Outcome.sorts_compare c.parameters found).partitions
  case stub => exact fun _ => body
  all_goals
    obtain ⟨none, concern, severity⟩ | ⟨⟨template, e, given, refused⟩, concern, severity⟩ := why
    · simp [reported, none, concern, severity]
    · simp [reported, given, refused, concern, severity]

/-- A candidate with a template that is accepted has a report if names are left over. -/
theorem reportsMismatch_of_ok (given : c.template = some template)
    (accepted : Template.placeholders scheme template = .ok found) :
    c.ReportsMismatch scheme policy (c.build scheme policy) := by
  have body := body_build_of_ok given accepted policy
  have sorts (found : List Placeholder) := Outcome.sorts_compare c.parameters found
  have parts (found : List Placeholder) := (sorts found).partitions
  have success := (sorts found).isSuccess_iff
  have reports : (c.build scheme policy).diagnostics =
      if (Outcome.compare c.parameters found).isSuccess then []
      else [Diagnostic.mismatch c (Outcome.compare c.parameters found) policy.severity] := by
    rw [diagnostics_build, complaint?, given]
    simp only [accepted]
    split_ifs <;> rfl
  cases same : (Outcome.compare c.parameters found).isSuccess with
  | true =>
    rw [same, if_pos rfl] at reports
    have agree := success.mp same
    constructor
    case sorts => exact sorts
    case partitions => exact parts
    case body => exact fun _ => body ▸ noExpression_notMem_bodyOf _ _ _
    case mismatch =>
      refine iff_of_false (by simp [reports]) ?_
      rintro ⟨template', found', given', accepted', differ⟩
      obtain rfl := Option.some.inj (given.symm.trans given')
      obtain rfl := Except.ok.inj (accepted.symm.trans accepted')
      exact differ agree
    all_goals simp [reports, given, accepted]
  | false =>
    rw [same, if_neg Bool.false_ne_true] at reports
    have differ := mt success.mpr (Bool.eq_false_iff.mp same)
    have tells := Diagnostic.tells_problems same
    constructor
    case sorts => exact sorts
    case partitions => exact parts
    case body => exact fun _ => body ▸ noExpression_notMem_bodyOf _ _ _
    case mismatch =>
      refine iff_of_true ⟨_, by rw [reports]; exact List.mem_cons_self, rfl⟩ ?_
      exact ⟨template, found, given, accepted, differ⟩
    case message =>
      intro d hd _
      rw [reports, List.mem_singleton] at hd
      exact ⟨template, found, _, given, accepted, tells, tells.only, hd ▸ rfl⟩
    all_goals simp [reports, given, accepted, Diagnostic.mismatch]

/-- What is reported about a candidate is exactly in what its parameters and its placeholders do not
match, or that there is no template to match them with. -/
theorem build_reportsMismatch (c : Candidate) (scheme : Enclosure) (policy : Policy) :
    c.ReportsMismatch scheme policy (c.build scheme policy) := by
  cases given : c.template with
  | none =>
    refine reportsMismatch_of_stub (d := Diagnostic.missingTemplate c) ?_
      (body_build_of_not_ok (by simp [given]) policy) (.inl ⟨given, rfl, rfl⟩)
    rw [diagnostics_build, complaint?, given]
    rfl
  | some template =>
    cases accepted : Template.placeholders scheme template with
    | error e =>
      refine reportsMismatch_of_stub (d := Diagnostic.invalidTemplate c e) ?_
        (body_build_of_not_ok ?_ policy) (.inr ⟨⟨template, e, given, accepted⟩, rfl, rfl⟩)
      · rw [diagnostics_build, complaint?, given]
        simp only [accepted]
        rfl
      · intro other found same
        rw [given, Option.some.injEq] at same
        rw [← same, accepted]
        rintro ⟨⟩
    | ok found => exact reportsMismatch_of_ok given accepted

/-- Two parameters that the template does not use, and a placeholder that is no parameter. -/
theorem build_reportsMismatch_of_leftovers :
    let c : Candidate :=
      { container := "T", scope := "crate", name := "f", receiver := none,
        parameters := [⟨"b", "f64"⟩, ⟨"a", "f64"⟩, ⟨"x", "f64"⟩], template := some "[x] + [y]",
        fixedShape := true }
    (c.build .square .strict).diagnostics.map Diagnostic.message =
        ["`f`: parameter(s) not used by the template: `a`, `b`; " ++
          "placeholder(s) without a matching parameter: `y`"] ∧
      c.ReportsMismatch .square .strict (c.build .square .strict) :=
  ⟨by decide +kernel, build_reportsMismatch _ _ _⟩

end Candidate
end FormulaBinding
