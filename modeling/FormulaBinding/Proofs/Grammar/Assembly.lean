import FormulaBinding.Proofs.Grammar.Elsewhere
import FormulaBinding.Proofs.Grammar.Implementations

/-!
# Units that can be read

The declarations that make up a unit are read one by one: the type with its attributes always, and
the implementation if each of its functions can be read by itself. What surrounds a function has no
part in how it is read.
-/

namespace FormulaBinding.Grammar
open FormulaBinding.Parser FormulaBinding.Token FormulaBinding.Lexer

variable {read : Reader} {n : Nat} {c : Cursor} {us body inner : List Token} {w name : String}

/-- Whether a parser, where nothing is left over, reads just some tokens, as one phrase. -/
def ReadsOff (p : Parser Unit) (ts : List Token) : Prop :=
  ∀ {c : Cursor} {us : List Token}, c.rest = ts ++ us → c.leftover = none →
    ∃ q, p c = .ok ((), { c with rest := us, row := q :: c.row })

/-- A loop reads what its parser reads one by one, up to where its test holds. -/
theorem repeatUpTo_run {p : Parser Unit} (test : List Token → Bool) {tss : List (List Token)}
    {m : Nat} (each : ∀ ts ∈ tss, (∀ us, test (ts ++ us) = false) ∧ ReadsOff p ts)
    (stops : test us = true) (enough : tss.length < m) (rest : c.rest = tss.flatten ++ us)
    (clear : c.leftover = none) : ∃ qs, repeatUpTo (do
      if ← peek test then return false
      p
      return true) m c = .ok ((), { c with rest := us, row := qs ++ c.row }) := by
  induction tss generalizing c m with
  | nil =>
    obtain ⟨m, rfl⟩ := Nat.exists_eq_succ_of_ne_zero (Nat.ne_zero_of_lt enough)
    rcases c with ⟨_, inside, leftover, row⟩
    cases rest
    refine ⟨[], run_bind_eq_ok.mpr ⟨false, _, run_bind_eq_ok.mpr ⟨_, _, peek_run _, ?_⟩, rfl⟩⟩
    simp only [stops, if_true]
    rfl
  | cons ts tss ih =>
    obtain ⟨m, rfl⟩ := Nat.exists_eq_succ_of_ne_zero (Nat.ne_zero_of_lt enough)
    obtain ⟨goes, reads⟩ := each ts List.mem_cons_self
    rw [List.flatten_cons, List.append_assoc] at rest
    obtain ⟨q, first⟩ := reads rest clear
    obtain ⟨qs, others⟩ := ih (c := { c with rest := tss.flatten ++ us, row := q :: c.row })
      (fun ts mem => each ts (List.mem_cons_of_mem _ mem)) (by simpa using enough) rfl clear
    refine ⟨qs ++ [q], run_bind_eq_ok.mpr ⟨true, { c with
      rest := tss.flatten ++ us, row := q :: c.row }, ?_, by simpa using others⟩⟩
    refine run_bind_eq_ok.mpr ⟨_, _, peek_run _, ?_⟩
    simp only [rest, goes, Bool.false_eq_true, if_false]
    exact run_bind_eq_ok.mpr ⟨_, _, first, rfl⟩

theorem untilEnd_run {p : Parser Unit} {tss : List (List Token)}
    (each : ∀ ts ∈ tss, ts ≠ [] ∧ ReadsOff p ts) (rest : c.rest = tss.flatten)
    (clear : c.leftover = none) :
    ∃ qs, untilEnd p c = .ok ((), { c with rest := [], row := qs ++ c.row }) := by
  have enough : tss.length < c.rest.length + 1 := by
    rw [rest]
    exact Nat.lt_succ_of_le (length_le_length_flatten fun ts mem => (each ts mem).1)
  have goes : ∀ ts ∈ tss, (∀ us, (ts ++ us).isEmpty = false) ∧ ReadsOff p ts := fun ts mem =>
    ⟨fun us => by simp [(each ts mem).1], (each ts mem).2⟩
  have rest : c.rest = tss.flatten ++ [] := by rw [rest, List.append_nil]
  obtain ⟨qs, run⟩ := repeatUpTo_run List.isEmpty goes rfl enough rest clear
  exact ⟨qs, run_bind_eq_ok.mpr ⟨_, _, rfl, run⟩⟩

/-- Whether a phrase is a parameter with the name and the type that tokens are written for. -/
def IsInputAs (p : String × List Token) (q : Phrase) : Prop :=
  ∃ t, IsTypeOf p.2 t ∧ q = .node .parameter
    [wordPattern p.1 Extent.nowhere, .token (.mark ':' false Extent.nowhere), t]

theorem IsInputAs.isInputOf {p : String × List Token} {q : Phrase} (h : IsInputAs p q) :
    IsInputOf p.1 q := by
  obtain ⟨t, -, rfl⟩ := h
  exact ⟨_, _, _, [t].filter (!Phrase.is .outerAttribute ·), rfl, rfl⟩

/-- A step reads a parameter whose type is one by itself; the comma behind it is read next. -/
theorem parameterStep_run {p : String × List Token} (free : p.1 ∉ reservedWords)
    (calm : AreCalm p.2) (type : IsType p.2) (enough : depth p.2 ≤ n + 1) (ends : EndsInput us)
    (rest : c.rest = inputTokens p ++ us) (clear : c.leftover = none) :
    ∃ q, IsInputAs p q ∧ ∀ {more : Bool} {d : Cursor}, (do
        if ← atEnd then return false
        mark ","
        return true : Parser Bool) { c with rest := us, row := q :: c.row } = .ok (more, d) →
      parameterStep (reader (n + 1)) c = .ok (more, d) := by
  have rest : c.rest = .name p.1 Extent.nowhere :: .mark ':' false Extent.nowhere ::
      (p.2 ++ us) := rest
  obtain ⟨t, isType⟩ := type.exists_isTypeOf
  have typed := isType.run enough ends (c := ⟨p.2 ++ us, c.inside, c.leftover,
    [.token (.mark ':' false Extent.nowhere), wordPattern p.1 Extent.nowhere]⟩) rfl clear
  have read := (parameter_eq_ok rest free calm ends.endsType).mpr ⟨rfl, _, typed, rfl⟩
  exact ⟨_, ⟨t, isType, rfl⟩, fun comma => (parameterStep_eq_ok rest fun run =>
    ((parameter_eq_ok rest free calm ends.endsType).mp run).1).mpr ⟨_, read, comma⟩⟩

theorem repeatUpTo_parameterStep_run {m : Nat} {ps : List (String × List Token)}
    (all : ∀ p ∈ ps, p.1 ∉ reservedWords ∧ AreCalm p.2 ∧ IsType p.2 ∧ depth p.2 ≤ n + 1)
    (many : ps.length < m) (rest : c.rest = commaSeparated (ps.map inputTokens))
    (clear : c.leftover = none) : ∃ row, List.Forall₂ IsInputAs ps (Phrase.rolesOf row.reverse) ∧
      repeatUpTo (parameterStep (reader (n + 1))) m c =
        .ok ((), { c with rest := [], row := row ++ c.row }) := by
  induction ps generalizing c m with
  | nil =>
    obtain ⟨m, rfl⟩ := Nat.exists_eq_succ_of_ne_zero (Nat.ne_zero_of_lt many)
    have rest : c.rest = [] := rest
    exact ⟨[], .nil,
      run_bind_eq_ok.mpr ⟨false, c, parameterStep_run_of_nil rest, by rw [← rest]; rfl⟩⟩
  | cons p ps ih =>
    obtain ⟨m, rfl⟩ := Nat.exists_eq_succ_of_ne_zero (Nat.ne_zero_of_lt many)
    obtain ⟨free, calm, type, enough⟩ := all p List.mem_cons_self
    cases ps with
    | nil =>
      have rest : c.rest = inputTokens p ++ [] := by rw [rest, List.append_nil]; rfl
      obtain ⟨q, ⟨t, isType, rfl⟩, step⟩ := parameterStep_run free calm type enough .nil rest clear
      exact ⟨[_], .cons ⟨t, isType, rfl⟩ .nil, run_bind_eq_ok.mpr ⟨false, _, step rfl, rfl⟩⟩
    | cons p' ps =>
      rw [List.map_cons, List.map_cons, commaSeparated_cons_cons, ← List.map_cons] at rest
      obtain ⟨q, ⟨t, isType, rfl⟩, step⟩ :=
        parameterStep_run free calm type enough (.comma _ _) rest clear
      obtain ⟨row, each, later⟩ := ih (c := { c with
        rest := commaSeparated ((p' :: ps).map inputTokens)
        row := .token (.mark ',' false Extent.nowhere) :: _ :: c.row })
        (fun x mem => all x (List.mem_cons_of_mem p mem)) (by simpa using many) rfl clear
      refine ⟨row ++ [.token (.mark ',' false Extent.nowhere), _], ?_,
        run_bind_eq_ok.mpr ⟨true, _, step rfl, by simpa using later⟩⟩
      rw [List.reverse_append]
      exact .cons ⟨t, isType, rfl⟩ each

/-- Parameters behind a receiver are read if their types are types by themselves. -/
theorem parameters_run {r : Option Receiver} {ps : List (String × List Token)}
    (all : ∀ p ∈ ps, p.1 ∉ reservedWords ∧ AreCalm p.2 ∧ IsType p.2 ∧ depth p.2 ≤ n + 1)
    (first : c.row = []) (clear : c.leftover = none)
    (rest : c.rest = RenderContext.receiver r ++ commaSeparated (ps.map inputTokens)) :
    ∃ row qs, Phrase.rolesOf row.reverse = (r.map receiverPhrase).toList ++ qs ∧
      List.Forall₂ IsInputAs ps qs ∧
      parameters (reader (n + 1)) c = .ok ((), { c with rest := [], row := row }) := by
  obtain ⟨m, many, steps⟩ := parameters_eq_repeatUpTo (reader (n + 1)) first rest
  obtain ⟨row, each, run⟩ := repeatUpTo_parameterStep_run (c := { c with
    rest := commaSeparated (ps.map inputTokens), row := receiverRow r }) all many rfl clear
  refine ⟨_, _, ?_, each, steps.trans run⟩
  rw [List.reverse_append]
  cases r <;> rfl

/-- A function that can be read by itself is read in the same way with other functions behind
it. -/
theorem readsOff_implMember {row : List Phrase}
    (alone : runAll (implMember (reader (n + 1))) (functionTokens w inner body) = .ok ((), row)) :
    ReadsOff (implMember (reader (n + 1))) (functionTokens w inner body) := by
  obtain ⟨d, run, -, clear', -⟩ := runAll_eq_ok.mp alone
  obtain ⟨free, content, final, inputs, statements, rfl⟩ :=
    (implMember_eq_ok (List.append_nil _).symm).mp run
  intro c us rest clear
  have again := (implMember_eq_ok (u := ()) rest).mpr
    ⟨free, content, final, clear.symm ▸ inputs, statements, rfl⟩
  refine ⟨functionPhrase w content.row.reverse final.row.reverse, ?_⟩
  rw [again, clear]
  exact congrArg (fun l => Except.ok ((), { c with
    rest := us
    leftover := l
    row := functionPhrase w content.row.reverse final.row.reverse :: c.row })) clear'

/-- Whether what stands in the brackets of an attribute can be read. -/
def ReadsAttribute (read : Reader) (body : List Token) : Prop :=
  ∃ row, attributeContent read ⟨body, some (.bracket, Extent.nowhere), none, []⟩ =
    .ok ((), ⟨[], some (.bracket, Extent.nowhere), none, row⟩)

theorem readsOff_outerAttribute (reads : ReadsAttribute read body) :
    ReadsOff (outerAttribute read) (op "#" ++ inBrackets body) := by
  obtain ⟨content, run⟩ := reads
  intro c us rest clear
  rcases c with ⟨_, inside, leftover, row⟩
  cases clear
  cases rest
  refine ⟨_, node_eq_ok.mpr ⟨⟨us, inside, none, [.group .bracket content.reverse Extent.nowhere
    Extent.nowhere, .token (.mark '#' false Extent.nowhere)]⟩, ?_, rfl⟩⟩
  refine run_bind_eq_ok.mpr ⟨_, _, rfl, inGroup_eq_ok.mpr ⟨_, _, _, _, _, rfl, run, rfl⟩⟩

theorem outerAttributes_reads {bodies : List (List Token)}
    (each : ∀ body ∈ bodies, ReadsAttribute read body) (none : Ahead.mark "#" us = false)
    (rest : c.rest = attributeTokens bodies ++ us) (clear : c.leftover = .none) :
    ∃ qs, outerAttributes read c = .ok ((), { c with rest := us, row := qs ++ c.row }) := by
  have reads : ∀ ts ∈ bodies.map fun body => op "#" ++ inBrackets body,
      (∀ us, (!Ahead.mark "#" (ts ++ us)) = false) ∧ ReadsOff (outerAttribute read) ts := by
    intro ts mem
    obtain ⟨body, inside, rfl⟩ := List.mem_map.mp mem
    exact ⟨fun us => rfl, readsOff_outerAttribute (each body inside)⟩
  have enough : (bodies.map fun body => op "#" ++ inBrackets body).length < c.rest.length + 1 := by
    have length := length_le_attributeTokens bodies
    rw [rest, List.length_append, List.length_map]
    omega
  obtain ⟨qs, run⟩ := repeatUpTo_run (fun ts => !Ahead.mark "#" ts) reads
    (by rw [none]; rfl) enough (by rw [rest, attributeTokens_eq_flatten]) clear
  exact ⟨qs, run_bind_eq_ok.mpr ⟨_, _, rfl, run⟩⟩

/-- The attributes of a generated type: a text and what is derived. -/
theorem readsAttribute_doc (n : Nat) (text : String) :
    ReadsAttribute (reader (n + 3)) (ident "doc" ++ op "=" ++ quoted text) := ⟨_, rfl⟩

theorem readsAttribute_derive (names : List String) :
    ReadsAttribute read (ident "derive" ++ inParens (commaSeparated (names.map ident))) :=
  ⟨_, rfl⟩

/-- A declaration that is kept is read with the attributes in front of it. -/
theorem readsOff_item (bodies : List (List Token)) {ts : List Token}
    (each : ∀ body ∈ bodies, ReadsAttribute read body)
    (none : ∀ us, Ahead.mark "#" (ts ++ us) = false)
    {p : Parser Unit} (kept : ∀ {c : Cursor} {us : List Token}, c.rest = ts ++ us →
      itemAfterAttributes read c = (p >>= fun _ => pure true) c)
    {k : Kind} (role : k ≠ .verbatimItem)
    (reads : ∀ {c : Cursor} {us : List Token}, c.rest = ts ++ us → c.leftover = .none →
      ∃ parts, p c = .ok ((), { c with rest := us, row := .node k parts :: c.row })) :
    ReadsOff (item read) (attributeTokens bodies ++ ts) := by
  intro c us rest clear
  rw [List.append_assoc] at rest
  obtain ⟨qs, attributes⟩ :=
    outerAttributes_reads (c := { c with row := [] }) each (none us) rest clear
  obtain ⟨parts, run⟩ := reads (c := { c with rest := ts ++ us }) rfl clear
  refine ⟨.node k (qs.reverse ++ parts), run_bind_eq_ok.mpr ⟨_, _, rfl, ?_⟩⟩
  refine run_bind_eq_ok.mpr ⟨((), qs.reverse), _, collect_eq_ok.mpr ⟨_, attributes, by simp, rfl⟩,
    ?_⟩
  have stays : itemAfterAttributes read { c with rest := ts ++ us } = .ok (true, { c with
      rest := us, row := .node k parts :: c.row }) := by
    rw [kept rfl]
    exact run_bind_eq_ok.mpr ⟨_, _, run, rfl⟩
  refine run_bind_eq_ok.mpr ⟨_, _, stays, run_bind_eq_ok.mpr ⟨_, _, rfl, ?_⟩⟩
  have stands : (some k != some Kind.verbatimItem) = true := by simpa using role
  have lasts : (Phrase.node k parts :: c.row).head?.bind Phrase.kind? = some k := rfl
  simp only [lasts, stands, Bool.and_self, if_true]
  rfl

theorem readsOff_item_struct {bodies : List (List Token)}
    (each : ∀ body ∈ bodies, ReadsAttribute read body) (free : name ∉ reservedWords) :
    ReadsOff (item read) (attributeTokens bodies ++ structTokens name) :=
  readsOff_item _ each (fun _ => rfl) itemAfterAttributes_struct (k := .structItem) (by decide)
    fun rest _ => ⟨_, (structDeclaration_eq_ok rest).mpr ⟨free, rfl⟩⟩

variable {P : List Token}

/-- An implementation is read if its members are read one by one. -/
theorem readsOff_item_impl (trait : IsTypePath P) (enough : depth P ≤ n)
    (free : name ∉ reservedWords) {members : List (List Token)}
    (plain : Ahead.mark "#" members.flatten = false)
    (each : ∀ ts ∈ members, ts ≠ [] ∧ ReadsOff (implMember (reader (n + 1))) ts) :
    ReadsOff (item (reader (n + 1))) (implTokens P name members.flatten) := by
  refine readsOff_item [] (List.forall_mem_nil _) (fun _ => rfl)
    itemAfterAttributes_impl (k := .implItem) (by decide) fun {c us} rest clear => ?_
  rcases c with ⟨_, inside, leftover, row⟩
  cases clear
  obtain ⟨qs, run⟩ := untilEnd_run (c := ⟨members.flatten, some (.brace, Extent.nowhere), none, []⟩)
    each rfl rfl
  rw [List.append_nil] at run
  obtain ⟨parts, path⟩ := trait.type_run
  exact ⟨(implPhrase (.node .path parts) name qs.reverse).parts, (implDeclaration_eq_ok path
    trait.isPath.hasHead free enough plain rest rfl).mpr ⟨_, run, rfl⟩⟩

/-- The tokens of a type with attributes and one implementation make up a file if the members of the
implementation are read one by one. -/
theorem isOk_readFileTokens (trait : IsTypePath P) (free : name ∉ reservedWords)
    {bodies members : List (List Token)} (plain : Ahead.mark "#" members.flatten = false)
    (enough : depth (attributeTokens bodies ++ (structTokens name ++
      implTokens P name members.flatten)) = n + 2)
    (attributes : ∀ body ∈ bodies, ReadsAttribute (reader (n + 1)) body)
    (each : ∀ ts ∈ members, ts ≠ [] ∧ ReadsOff (implMember (reader (n + 1))) ts) :
    (readFileTokens (attributeTokens bodies ++ (structTokens name ++
      implTokens P name members.flatten))).isOk = true := by
  have fits : depth P ≤ n := by
    simp only [depth, implTokens, ident, sizeList_append, sizeList, size] at enough ⊢
    omega
  have items : ∀ ts ∈ [attributeTokens bodies ++ structTokens name,
      implTokens P name members.flatten], ts ≠ [] ∧ ReadsOff (reader (n + 2) .item) ts := by
    intro ts mem
    simp only [List.mem_cons, List.not_mem_nil, or_false] at mem
    rcases mem with rfl | rfl
    · exact ⟨by simp [structTokens, names], readsOff_item_struct attributes free⟩
    · exact ⟨by simp [implTokens, ident], readsOff_item_impl trait fits free plain each⟩
  have noInner := innerAttributes_run (reader (n + 2)) (c := ⟨attributeTokens bodies ++
    (structTokens name ++ implTokens P name members.flatten), none, none, []⟩)
    (by cases bodies <;> rfl)
  obtain ⟨qs, run⟩ := untilEnd_run (c := ⟨attributeTokens bodies ++
    (structTokens name ++ implTokens P name members.flatten), none, none, []⟩) items (by simp) rfl
  rw [List.append_nil] at run
  refine isOk_iff.mpr ⟨_, bind_eq_ok.mpr ⟨((), qs.reverse), ?_, rfl⟩⟩
  rw [readTokens, enough]
  exact runAll_eq_ok.mpr ⟨_, run_bind_eq_ok.mpr ⟨_, _, noInner, run⟩, rfl, rfl, rfl⟩

end FormulaBinding.Grammar
