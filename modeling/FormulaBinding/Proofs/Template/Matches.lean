import FormulaBinding.Proofs.Body.Shape
import Mathlib.Data.List.TakeWhile

/-!
# Which placeholders are found

A placeholder can stand at any position of a template. Those that are found are the leftmost ones
that do not overlap: each is the first one that does not begin before the end of the one in front of
it. The first of them whose name is too long, or is one distinct name too many, is the reason to
refuse the template; without one, each name counts where it appears first.
-/

namespace FormulaBinding.Template

variable {scheme : Enclosure} {cs s t rest : List Char} {p q start : ℕ}

/-! ## Matches -/

/-- Whether a placeholder of a name begins at a position of a text. -/
structure MatchesAt (scheme : Enclosure) (cs : List Char) (p : ℕ) (s : List Char) : Prop where
  written : scheme.left ++ s ++ scheme.right <+: cs.drop p
  named : s ≠ []
  open_ : ∀ c ∈ scheme.right, c ∉ s

/-- The position behind a placeholder of a name that begins at a position. -/
def matchEnd (scheme : Enclosure) (p : ℕ) (s : List Char) : ℕ :=
  p + (scheme.left ++ s ++ scheme.right).length

/-- The matches from a position on, each at the least position not before the end of the one in
front of it. -/
inductive Leftmost (scheme : Enclosure) (cs : List Char) : ℕ → List (ℕ × List Char) → Prop where
  | done {start : ℕ} (none : ∀ p s, start ≤ p → ¬ MatchesAt scheme cs p s) :
    Leftmost scheme cs start []
  | next {start p : ℕ} {s : List Char} {ms : List (ℕ × List Char)}
    (behind : start ≤ p) (found : MatchesAt scheme cs p s)
    (least : ∀ q t, start ≤ q → q < p → ¬ MatchesAt scheme cs q t)
    (others : Leftmost scheme cs (matchEnd scheme p s) ms) :
    Leftmost scheme cs start ((p, s) :: ms)

theorem right_eq_closer (scheme : Enclosure) : ∃ tail, scheme.right = scheme.closer :: tail := by
  cases scheme <;> exact ⟨_, rfl⟩

/-- A name is all that stands in front of the first closing character. -/
theorem takeWhile_name (open_ : scheme.closer ∉ s) (rest : List Char) :
    (s ++ (scheme.right ++ rest)).takeWhile (· != scheme.closer) = s ∧
      (s ++ (scheme.right ++ rest)).dropWhile (· != scheme.closer) = scheme.right ++ rest := by
  obtain ⟨tail, right⟩ := right_eq_closer scheme
  have inside : ∀ c ∈ s, (c != scheme.closer) = true := fun c mem =>
    bne_iff_ne.mpr fun same => open_ (same ▸ mem)
  constructor
  · rw [List.takeWhile_append_of_pos inside, right]
    simp
  · rw [List.dropWhile_append_of_pos inside, right]
    simp

theorem matchHere?_eq_some_iff : matchHere? scheme cs = some (s, rest) ↔
    s ≠ [] ∧ (∀ c ∈ scheme.right, c ∉ s) ∧ cs = scheme.left ++ (s ++ (scheme.right ++ rest)) := by
  constructor
  · intro h
    unfold matchHere? at h
    split at h
    · cases h
    · rename_i inner dropped
      dsimp only at h
      split at h
      · rename_i after name behind
        cases h
        rw [Text.dropStart?_eq_some_iff] at dropped behind
        have whole : inner = inner.takeWhile (· != scheme.closer) ++ (scheme.right ++ rest) := by
          rw [← behind, List.takeWhile_append_dropWhile]
        refine ⟨name ▸ List.cons_ne_nil _ _, fun c mem inside => ?_, by rw [dropped, ← whole]⟩
        have closing : c = scheme.closer := by
          cases scheme <;> simpa [Enclosure.right, Enclosure.closer] using mem
        have other := List.mem_takeWhile_imp inside
        rw [closing] at other
        simp at other
      · cases h
  · rintro ⟨named, open_, rfl⟩
    obtain ⟨tail, right⟩ := right_eq_closer scheme
    have free : scheme.closer ∉ s := open_ _ (right ▸ List.mem_cons_self)
    obtain ⟨taken, left⟩ := takeWhile_name free rest
    obtain ⟨c, cs, rfl⟩ := List.exists_cons_of_ne_nil named
    simp only [matchHere?, Text.dropStart?_eq_some_iff.mpr rfl, taken, left]

theorem matchesAt_iff : MatchesAt scheme cs p s ↔
    ∃ rest, matchHere? scheme (cs.drop p) = some (s, rest) := by
  simp only [matchHere?_eq_some_iff]
  constructor
  · rintro ⟨⟨rest, same⟩, named, open_⟩
    exact ⟨rest, named, open_, by rw [← same]; simp only [List.append_assoc]⟩
  · rintro ⟨rest, named, open_, same⟩
    exact ⟨⟨rest, by rw [same]; simp only [List.append_assoc]⟩, named, open_⟩

theorem MatchesAt.unique (h : MatchesAt scheme cs p s) (h' : MatchesAt scheme cs p t) : s = t := by
  obtain ⟨rest, found⟩ := matchesAt_iff.mp h
  obtain ⟨rest', found'⟩ := matchesAt_iff.mp h'
  rw [found] at found'
  exact congrArg Prod.fst (Option.some.inj found')

/-- Where nothing begins at a position, the search goes on at the next one. -/
theorem Leftmost.of_succ {ms : List (ℕ × List Char)} (h : Leftmost scheme cs (start + 1) ms)
    (none : ∀ s, ¬ MatchesAt scheme cs start s) : Leftmost scheme cs start ms := by
  cases h with
  | done free =>
    refine .done fun p s behind => ?_
    rcases Nat.eq_or_lt_of_le behind with rfl | later
    · exact none s
    · exact free p s later
  | next behind found least others =>
    refine .next (by omega) found (fun q t from_ before => ?_) others
    rcases Nat.eq_or_lt_of_le from_ with rfl | later
    · exact none t
    · exact least q t later before

theorem Leftmost.unique {ms ns : List (ℕ × List Char)} (h : Leftmost scheme cs start ms)
    (h' : Leftmost scheme cs start ns) : ms = ns := by
  induction h generalizing ns with
  | done none =>
    cases h' with
    | done => rfl
    | next behind found => exact absurd found (none _ _ behind)
  | @next start p s ms behind found least others ih =>
    cases h' with
    | done none => exact absurd found (none _ _ behind)
    | @next _ q t ns behind' found' least' others' =>
      have same : p = q := by
        rcases Nat.lt_trichotomy p q with before | same | after
        · exact absurd found (least' p s behind before)
        · exact same
        · exact absurd found' (least q t behind' after)
      subst same
      cases found.unique found'
      rw [ih others']

/-- The names that are found behind a beginning are those of the leftmost matches there. -/
theorem exists_leftmost_append (scheme : Enclosure) (before cs : List Char) :
    ∃ ms, Leftmost scheme (before ++ cs) before.length ms ∧ ms.map Prod.snd = names scheme cs := by
  induction cs using names.induct scheme generalizing before with
  | case1 =>
    refine ⟨[], .done fun p s behind found => ?_, by rw [names]; rfl⟩
    obtain ⟨rest, here⟩ := matchesAt_iff.mp found
    have nothing : (before ++ []).drop p = [] := by simpa using behind
    obtain ⟨named, -, same⟩ := matchHere?_eq_some_iff.mp (nothing ▸ here)
    simp only [List.nil_eq, List.append_eq_nil_iff] at same
    exact named same.2.1
  | case2 c cs name rest found ih =>
    obtain ⟨named, open_, same⟩ := matchHere?_eq_some_iff.mp found
    obtain ⟨ms, others, map⟩ := ih (before ++ (scheme.left ++ name ++ scheme.right))
    have whole : before ++ (scheme.left ++ name ++ scheme.right) ++ rest = before ++ c :: cs := by
      rw [same]
      simp only [List.append_assoc]
    rw [whole, List.length_append] at others
    have here : MatchesAt scheme (before ++ c :: cs) before.length name := by
      rw [matchesAt_iff, List.drop_left]
      exact ⟨rest, found⟩
    refine ⟨(before.length, name) :: ms, .next (Nat.le_refl _) here ?_ others, ?_⟩
    · intro q t from_ earlier
      omega
    · rw [List.map_cons, map, names]
      split
      · next found' =>
        cases found.symm.trans found'
        rfl
      · next none => cases found.symm.trans none
  | case3 c cs none ih =>
    obtain ⟨ms, others, map⟩ := ih (before ++ [c])
    rw [List.append_assoc, List.singleton_append, List.length_append, List.length_singleton]
      at others
    refine ⟨ms, others.of_succ fun s found => ?_, ?_⟩
    · obtain ⟨rest, here⟩ := matchesAt_iff.mp found
      rw [List.drop_left, none] at here
      cases here
    · rw [map]
      conv_rhs => rw [names]
      split
      · next found => cases none.symm.trans found
      · rfl

/-! ## Names that are refused -/

/-- What is wrong with a name behind others: it is too long, or one distinct name too many. -/
def fault? (before : List (List Char)) (name : List Char) : Option TemplateError :=
  if maxNameLength < name.length then
    some (.nameTooLong (String.ofList (name.take shownNameLength) ++ "..."))
  else if !before.contains name && before.eraseDups.length == maxPlaceholders then
    some .tooManyPlaceholders
  else none

/-- What is wrong with the first name with which something is. -/
def firstFault? (names : List (List Char)) : Option TemplateError :=
  names.zipIdx.findSome? fun (name, i) => fault? (names.take i) name

theorem length_eraseDups_append_singleton (before : List (List Char)) (name : List Char) :
    (before ++ [name]).eraseDups.length =
      if name ∈ before then before.eraseDups.length else before.eraseDups.length + 1 := by
  rw [List.eraseDups_append]
  split_ifs with known
  · simp [List.removeAll, known]
  · simp [List.removeAll, known, List.eraseDups_cons]

/-- Collecting stops at the first name with which something is wrong, where the names that were
seen are the distinct ones in front. -/
theorem collect_eq_error_iff (before seen all : List (List Char)) {e : TemplateError}
    (mem : ∀ name, name ∈ seen ↔ name ∈ before)
    (length : seen.length = before.eraseDups.length) (few : seen.length ≤ maxPlaceholders) :
    collect scheme all seen = .error e ↔
      ((all.zipIdx before.length).findSome? fun (name, i) =>
        fault? ((before ++ all).take i) name) = some e := by
  induction all generalizing before seen with
  | nil => simp [collect]
  | cons name all ih =>
    have later : before ++ name :: all = (before ++ [name]) ++ all := by simp
    have next : before.length + 1 = (before ++ [name]).length := by simp
    simp only [collect, List.zipIdx_cons, List.findSome?_cons, List.take_left]
    have here : fault? before name = if maxNameLength < name.length then
        some (.nameTooLong (String.ofList (name.take shownNameLength) ++ "..."))
        else if name ∉ seen ∧ seen.length = maxPlaceholders then some .tooManyPlaceholders
        else none := by
      simp [fault?, mem, length]
    rw [here]
    by_cases long : maxNameLength < name.length
    · simp [long]
    · by_cases known : name ∈ seen
      · have counted := length_eraseDups_append_singleton before name
        rw [if_pos ((mem name).mp known)] at counted
        simp only [long, known, if_true, if_false, not_true, false_and]
        rw [later, next]
        refine ih _ _ (fun other => ?_) (length.trans counted.symm) few
        rw [mem, List.mem_append, List.mem_singleton, or_iff_left_of_imp]
        rintro rfl
        exact (mem _).mp known
      · by_cases full : seen.length = maxPlaceholders
        · simp [long, known, full]
        · have counted := length_eraseDups_append_singleton before name
          rw [if_neg fun old => known ((mem name).mpr old), ← length] at counted
          have room : ¬ maxPlaceholders ≤ seen.length := by omega
          simp only [long, known, full, room, if_false, not_false_iff, true_and]
          rw [later, next, ← ih (before ++ [name]) (name :: seen) (fun other => ?_) counted.symm ?_]
          · cases collect scheme all (name :: seen) <;> simp [Except.map]
          · simp only [List.length_cons]
            omega
          · simp [mem, or_comm]

/-- A template that is not too long is refused for the first name with which something is wrong. -/
theorem placeholders_eq_firstFault? {template : String}
    (short : template.utf8ByteSize ≤ maxBytes) : placeholders scheme template =
      match firstFault? (names scheme template.toList) with
      | some e => .error e
      | none => .ok ((names scheme template.toList).eraseDups.map (placeholder scheme)) := by
  have refused (e : TemplateError) : placeholders scheme template = .error e ↔
      firstFault? (names scheme template.toList) = some e := by
    rw [placeholders, if_neg (by omega), firstFault?]
    exact collect_eq_error_iff [] [] _ (by simp) (by simp) (Nat.zero_le _)
  cases first : firstFault? (names scheme template.toList) with
  | some e => exact (refused e).mpr first
  | none =>
    cases result : placeholders scheme template with
    | ok found => exact congrArg Except.ok (eq_map_of_placeholders result)
    | error e => cases first.symm.trans ((refused e).mp result)

/-! ## Placeholders that are found -/

/-- What is known of the placeholders of a template that is accepted. -/
structure WellFound (scheme : Enclosure) (found : List Placeholder) : Prop where
  distinct : (found.map Placeholder.name).Nodup
  few : found.length ≤ maxPlaceholders
  named : ∀ p ∈ found, p.name ≠ ""
  short : ∀ p ∈ found, p.name.length ≤ maxNameLength
  open_ : ∀ p ∈ found, ∀ c ∈ scheme.right, c ∉ p.name.toList
  written : ∀ p ∈ found, p.raw.toList = scheme.left ++ p.name.toList ++ scheme.right

theorem Leftmost.matchesAt_of_mem {ms : List (ℕ × List Char)} (h : Leftmost scheme cs start ms)
    (mem : (p, s) ∈ ms) : MatchesAt scheme cs p s := by
  induction h with
  | done => cases mem
  | next behind found least others ih =>
    rcases List.mem_cons.mp mem with same | later
    · cases same
      exact found
    · exact ih later

theorem exists_matchesAt_of_mem_names (mem : s ∈ names scheme cs) : ∃ p, MatchesAt scheme cs p s := by
  obtain ⟨ms, leftmost, map⟩ := exists_leftmost_append scheme [] cs
  obtain ⟨⟨p, t⟩, found, rfl⟩ := List.mem_map.mp (map ▸ mem)
  exact ⟨p, leftmost.matchesAt_of_mem found⟩

/-- Names that are collected with others are short, and not too many. -/
theorem bounds_of_collect {all seen : List (List Char)} {found : List Placeholder}
    (h : collect scheme all seen = .ok found) (few : seen.length ≤ maxPlaceholders) :
    seen.length + found.length ≤ maxPlaceholders ∧ ∀ name ∈ all, name.length ≤ maxNameLength := by
  induction all generalizing seen found with
  | nil =>
    cases h
    exact ⟨few, by simp⟩
  | cons name all ih =>
    rw [collect] at h
    split_ifs at h with long known many
    · obtain ⟨bound, short⟩ := ih h few
      exact ⟨bound, List.forall_mem_cons.mpr ⟨by omega, short⟩⟩
    · cases later : collect scheme all (name :: seen) with
      | error e => simp [later, Except.map] at h
      | ok rest =>
        rw [later] at h
        cases h
        obtain ⟨bound, short⟩ := ih later (by rw [List.length_cons]; omega)
        rw [List.length_cons] at bound
        exact ⟨by rw [List.length_cons]; omega, List.forall_mem_cons.mpr ⟨by omega, short⟩⟩

theorem wellFound_of_placeholders {template : String} {found : List Placeholder}
    (h : placeholders scheme template = .ok found) : WellFound scheme found := by
  have all := eq_map_of_placeholders h
  have named : ∀ p ∈ found, ∃ s, p = placeholder scheme s ∧ s.length ≤ maxNameLength ∧
      ∃ i, MatchesAt scheme template.toList i s := by
    rw [placeholders] at h
    split_ifs at h
    intro p mem
    obtain ⟨s, once, rfl⟩ := List.mem_map.mp (all ▸ mem)
    have among := List.mem_eraseDups.mp once
    exact ⟨s, rfl, (bounds_of_collect h (Nat.zero_le _)).2 s among,
      exists_matchesAt_of_mem_names among⟩
  constructor
  case distinct => exact map_name_placeholders h ▸ nodup_distinctNames scheme template
  case few =>
    rw [placeholders] at h
    split_ifs at h
    simpa using (bounds_of_collect h (Nat.zero_le _)).1
  case named =>
    intro p mem empty
    obtain ⟨s, rfl, -, i, found⟩ := named p mem
    exact found.named (by simpa [placeholder] using empty)
  case short =>
    intro p mem
    obtain ⟨s, rfl, short, -⟩ := named p mem
    simpa [placeholder] using short
  case open_ =>
    intro p mem c closing
    obtain ⟨s, rfl, -, i, found⟩ := named p mem
    simpa [placeholder] using found.open_ c closing
  case written =>
    intro p mem
    obtain ⟨s, rfl, -⟩ := named p mem
    simp [placeholder]

/-- A template that is too long is refused with its length. In any other one there are leftmost
matches, and only these; the first of them with whose name something is wrong is the reason to
refuse it, and without one each name counts where it appears first. What is found then is distinct,
short, named and not too much. -/
theorem placeholders_leftmost (scheme : Enclosure) (template : String) :
    ∃ ms, Leftmost scheme template.toList 0 ms ∧
      (∀ ns, Leftmost scheme template.toList 0 ns → ns = ms) ∧
      placeholders scheme template =
        (if maxBytes < template.utf8ByteSize then .error (.tooLong template.utf8ByteSize)
        else match firstFault? (ms.map Prod.snd) with
          | some e => .error e
          | none => .ok ((ms.map Prod.snd).eraseDups.map (placeholder scheme))) ∧
      ∀ found, placeholders scheme template = .ok found → WellFound scheme found := by
  obtain ⟨ms, leftmost, map⟩ := exists_leftmost_append scheme [] template.toList
  refine ⟨ms, leftmost, fun ns others => others.unique leftmost, ?_,
    fun found => wellFound_of_placeholders⟩
  split_ifs with long
  · rw [placeholders, if_pos long]
  · rw [placeholders_eq_firstFault? (by omega), map]

end FormulaBinding.Template
