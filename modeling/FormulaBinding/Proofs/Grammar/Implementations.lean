import FormulaBinding.Proofs.Grammar.Leftovers
import FormulaBinding.Proofs.Grammar.Methods
import FormulaBinding.Proofs.Grammar.Operands
import Mathlib.Algebra.BigOperators.Group.List.Basic
import Mathlib.Data.List.Forall2

/-!
# Reading implementations again

The tokens of a type with an implementation of a trait, whose path may stand as a type, are read as
these two declarations. What stands in the braces of the implementation is read function by function.
-/

namespace FormulaBinding.Grammar
open FormulaBinding.Parser FormulaBinding.Token FormulaBinding.Lexer
open Phrase (is)

variable {read : Reader} {c d : Cursor} {w : String} {e : Extent} {n : Nat}
  {ts us inner body : List Token} {u : Unit}

/-- A loop reads piece by piece, up to where its test holds. If nothing is left over in the end,
nothing is behind any piece. -/
theorem repeatUpTo_eq_ok {α : Type} {p : Parser Unit} [Remembers p] (test : List Token → Bool)
    (tokens : α → List Token) {R : α → Phrase → Prop} {xs : List α} {m : Nat}
    (each : ∀ x ∈ xs, (∀ us, test (tokens x ++ us) = false) ∧
      ∀ {c d : Cursor} {us : List Token}, c.rest = tokens x ++ us → d.leftover = none →
        p c = .ok ((), d) → d.rest = us ∧ ∃ q, d.row = q :: c.row ∧ R x q)
    (clear : d.leftover = none)
    (stops : test us = true) (enough : xs.length < m) (rest : c.rest = (xs.map tokens).flatten ++ us)
    (h : repeatUpTo (do
      if ← peek test then return false
      p
      return true) m c = .ok (u, d)) :
    d.rest = us ∧ ∃ qs, d.row = qs.reverse ++ c.row ∧ List.Forall₂ R xs qs := by
  induction xs generalizing c m with
  | nil =>
    obtain ⟨m, rfl⟩ := Nat.exists_eq_succ_of_ne_zero (Nat.ne_zero_of_lt enough)
    have rest : c.rest = us := rest
    obtain ⟨_, _, step, h⟩ := run_bind_eq_ok.mp h
    rw [run_bind_of_ok (peek_run _)] at step
    simp only [rest, stops, if_true] at step
    cases step
    cases h
    exact ⟨rest, [], rfl, .nil⟩
  | cons x xs ih =>
    obtain ⟨m, rfl⟩ := Nat.exists_eq_succ_of_ne_zero (Nat.ne_zero_of_lt enough)
    obtain ⟨goes, read⟩ := each x List.mem_cons_self
    rw [List.map_cons, List.flatten_cons, List.append_assoc] at rest
    obtain ⟨more, f, step, h⟩ := run_bind_eq_ok.mp h
    rw [run_bind_of_ok (peek_run _)] at step
    simp only [rest, goes, Bool.false_eq_true, if_false] at step
    obtain ⟨_, g, run, step⟩ := run_bind_eq_ok.mp step
    cases step
    obtain ⟨left, q, row, hq⟩ := read rest ((Remembers.follows h).leftover clear) run
    obtain ⟨none, qs, row', all⟩ := ih (fun y hy => each y (List.mem_cons_of_mem x hy))
      (by simpa using enough) left h
    exact ⟨none, q :: qs, by rw [row', row]; simp, .cons hq all⟩

theorem length_le_length_flatten {tss : List (List Token)} (some : ∀ ts ∈ tss, ts ≠ []) :
    tss.length ≤ tss.flatten.length := by
  rw [List.length_flatten, ← List.length_map List.length]
  refine List.length_le_sum_of_one_le _ fun m mem => ?_
  obtain ⟨ts, inside, rfl⟩ := List.mem_map.mp mem
  exact List.length_pos_of_ne_nil (some ts inside)

/-- What is read up to the end is read piece by piece. -/
theorem untilEnd_eq_ok {α : Type} {p : Parser Unit} [Remembers p] (tokens : α → List Token)
    {R : α → Phrase → Prop} {xs : List α}
    (each : ∀ x ∈ xs, tokens x ≠ [] ∧ ∀ {c d : Cursor} {us : List Token},
      c.rest = tokens x ++ us → d.leftover = none → p c = .ok ((), d) →
        d.rest = us ∧ ∃ q, d.row = q :: c.row ∧ R x q)
    (clear : d.leftover = none) (rest : c.rest = (xs.map tokens).flatten) (h : untilEnd p c = .ok (u, d)) :
    d.rest = [] ∧ ∃ qs, d.row = qs.reverse ++ c.row ∧ List.Forall₂ R xs qs := by
  obtain ⟨_, _, got, h⟩ := run_bind_eq_ok.mp h
  cases got
  refine repeatUpTo_eq_ok List.isEmpty tokens (fun x hx => ⟨fun us => ?_, (each x hx).2⟩) clear rfl
    (Nat.lt_succ_of_le ?_) (by rw [rest, List.append_nil]) h
  · simp [(each x hx).1]
  · rw [rest, ← List.length_map tokens]
    refine length_le_length_flatten fun ts mem => ?_
    obtain ⟨x, hx, rfl⟩ := List.mem_map.mp mem
    exact (each x hx).1

theorem innerAttributes_run (read : Reader)
    (none : (Ahead.mark "#" c.rest && Ahead.mark "!" (c.rest.drop 1)) = false) :
    innerAttributes read c = .ok ((), c) := by
  refine run_bind_eq_ok.mpr ⟨_, _, rfl, run_bind_eq_ok.mpr ⟨false, c, ?_, rfl⟩⟩
  refine run_bind_eq_ok.mpr ⟨_, _, peek_run _, run_bind_eq_ok.mpr ⟨_, _, rfl, ?_⟩⟩
  simp only [none]
  rfl

def functionTokens (w : String) (inner body : List Token) : List Token :=
  signatureTokens w inner ++ inBraces body

def functionPhrase (w : String) (content statements : List Phrase) : Phrase :=
  .node .functionItem
    [signaturePhrase w content, .group .brace statements Extent.nowhere Extent.nowhere]

def bodyContent (read : Reader) : Parser Unit := do
  innerAttributes read
  read .statements

theorem functionBody_eq_ok (rest : c.rest = inBraces body ++ us) :
    functionBody read c = .ok (u, d) ↔ ∃ final,
      bodyContent read ⟨body, some (.brace, Extent.nowhere), c.leftover, []⟩ = .ok (u, final) ∧
        d = { c with
          rest := us
          leftover := final.leftover <|> final.leftoverError?
          row := .group .brace final.row.reverse Extent.nowhere Extent.nowhere :: c.row } := by
  refine inGroup_eq_ok.trans ⟨?_, ?_⟩
  · rintro ⟨_, _, _, _, final, here, run, rfl⟩
    cases rest.symm.trans here
    exact ⟨final, run, rfl⟩
  · rintro ⟨final, run, rfl⟩
    exact ⟨_, _, _, _, final, rest, run, rfl⟩

/-- The modifiers of a member of an implementation; the answer says whether it has a visibility. -/
def memberModifiers : Parser Bool := do
  let seen ← peek (Ahead.word "pub")
  visibility
  if !(← peek2 (Ahead.mark "!")) then discard (word? "default")
  return seen

/-- A function has neither attributes nor modifiers in front of it. -/
theorem function_start_run (read : Reader) {e e' : Extent}
    (rest : c.rest = .name "fn" e :: .name w e' :: us) :
    collect (outerAttributes read) c = .ok (((), []), c) ∧
      collect memberModifiers c = .ok ((false, []), c) := by
  constructor
  · exact collect_eq_ok.mpr ⟨_, outerAttributes_run (by rw [rest]; rfl), rfl, rfl⟩
  · rcases c with ⟨_, inside, leftover, row⟩
    cases rest
    rfl

/-- A function is read exactly if its name is no keyword, and its parameters and its body are
read. -/
theorem implMember_eq_ok (rest : c.rest = functionTokens w inner body ++ us) :
    implMember (reader (n + 1)) c = .ok (u, d) ↔ w ∉ reservedWords ∧ ∃ content final,
      parameters (reader (n + 1)) ⟨inner, some (.parenthesis, Extent.nowhere), c.leftover, []⟩ =
        .ok ((), content) ∧
      bodyContent (reader (n + 1)) ⟨body, some (.brace, Extent.nowhere),
        content.leftover <|> content.leftoverError?, []⟩ = .ok ((), final) ∧
      d = { c with
        rest := us
        leftover := final.leftover <|> final.leftoverError?
        row := functionPhrase w content.row.reverse final.row.reverse :: c.row } := by
  have begins : c.rest = .name "fn" Extent.nowhere :: .name w Extent.nowhere ::
    (inParens inner ++ op "->" ++ ident "f64" ++ inBraces body ++ us) := rest
  obtain ⟨attributes, modifiers⟩ := function_start_run (reader (n + 1)) begins
  have isFunction : Ahead.word "fn" c.rest = true := by rw [begins]; rfl
  rw [implMember, run_bind_of_ok (a := c) rfl, run_bind_of_ok attributes]
  change (collect memberModifiers >>= _) c = _ ↔ _
  rw [run_bind_of_ok modifiers]
  change (ahead >>= _) c = _ ↔ _
  rw [run_bind_of_ok (a := c.rest) rfl]
  simp only [isFunction, Bool.true_or, if_true]
  rw [run_bind_eq_ok]
  constructor
  · rintro ⟨⟨bodied, parts⟩, f, collected, h⟩
    obtain ⟨x, run, rfl, rfl⟩ := collect_eq_ok.mp collected
    obtain ⟨_, _, none, run⟩ := run_bind_eq_ok.mp run
    cases none
    obtain ⟨_, y, read, run⟩ := run_bind_eq_ok.mp run
    obtain ⟨safe, read⟩ := discard_eq_ok.mp read
    obtain ⟨-, free, content, inputs, rfl⟩ :=
      (signature_eq_ok (c := { c with row := [] }) rest).mp read
    obtain ⟨_, _, semicolon, further⟩ := run_bind_eq_ok.mp run
    cases semicolon
    simp only [Bool.false_eq_true, if_false] at further
    obtain ⟨_, z, braced, further⟩ := run_bind_eq_ok.mp further
    cases further
    obtain ⟨final, statements, rfl⟩ := (functionBody_eq_ok rfl).mp braced
    cases h
    exact ⟨free, content, final, inputs, statements, rfl⟩
  · rintro ⟨free, content, final, inputs, statements, rfl⟩
    refine ⟨(true, _), _, collect_eq_ok.mpr ⟨⟨us, c.inside,
      final.leftover <|> final.leftoverError?,
      [.group .brace final.row.reverse Extent.nowhere Extent.nowhere,
        signaturePhrase w content.row.reverse]⟩, ?_, rfl, rfl⟩, rfl⟩
    have signed := (signature_eq_ok (n := n) (c := { c with row := [] }) rest).mpr
      ⟨rfl, free, content, inputs, rfl⟩
    refine run_bind_eq_ok.mpr ⟨_, _, rfl,
      run_bind_eq_ok.mpr ⟨(), _, discard_eq_ok.mpr ⟨_, signed⟩, ?_⟩⟩
    refine run_bind_eq_ok.mpr ⟨_, _, rfl, ?_⟩
    simp only [Bool.false_eq_true, if_false]
    exact run_bind_eq_ok.mpr ⟨_, _, (functionBody_eq_ok rfl).mpr ⟨_, statements, rfl⟩, rfl⟩

/-- The tokens of an implementation of a trait for a type. -/
def implTokens (path : List Token) (name : String) (body : List Token) : List Token :=
  ident "impl" ++ path ++ names ["for", name] ++ inBraces body

/-- The phrase of an implementation of a trait, whose path is a phrase, for a type. -/
def implPhrase (trait : Phrase) (name : String) (members : List Phrase) : Phrase :=
  .node .implItem [.token (.name "impl" Extent.nowhere), .node .pathType [trait],
    .token (.name "for" Extent.nowhere), pathType [.name name Extent.nowhere],
    .group .brace members Extent.nowhere Extent.nowhere]

variable {name : String} {P : List Token}

/-- Where its two types are read, an implementation of a trait is read exactly if what stands in its
braces is. -/
theorem implDeclaration_of_types (first : HasHead P)
    (rest : c.rest = .name "impl" Extent.nowhere :: (P ++ .name "for" Extent.nowhere :: inner))
    {parts : List Phrase}
    (implemented : read (.type true) ⟨P ++ .name "for" Extent.nowhere :: inner, c.inside,
        c.leftover, [.token (.name "impl" Extent.nowhere)]⟩ =
      .ok ((), ⟨.name "for" Extent.nowhere :: inner, c.inside, c.leftover,
        [.node .pathType [.node .path parts], .token (.name "impl" Extent.nowhere)]⟩))
    (own : read (.type true) ⟨inner, c.inside, c.leftover,
        [.token (.name "for" Extent.nowhere), .node .pathType [.node .path parts],
          .token (.name "impl" Extent.nowhere)]⟩ =
      .ok ((), ⟨.group .brace body Extent.nowhere Extent.nowhere :: us, c.inside, c.leftover,
        [pathType [.name name Extent.nowhere], .token (.name "for" Extent.nowhere),
          .node .pathType [.node .path parts], .token (.name "impl" Extent.nowhere)]⟩))
    (plain : Ahead.mark "#" body = false) :
    implDeclaration read c = .ok (u, d) ↔ ∃ content,
      untilEnd (implMember read) ⟨body, some (.brace, Extent.nowhere), c.leftover, []⟩ =
        .ok ((), content) ∧
      d = { c with
        rest := us
        leftover := content.leftover <|> content.leftoverError?
        row := implPhrase (.node .path parts) name content.row.reverse :: c.row } := by
  rcases c with ⟨_, inside, leftover, row⟩
  cases rest
  dsimp only at implemented own
  have noConst (ts : List Token) : Ahead.word "const" (P ++ ts) = false :=
    first.ahead_word (by decide) (by decide)
  have noLess (ts : List Token) : Ahead.mark "<" (P ++ ts) = false :=
    first.ahead_mark (s := []) rfl (by decide)
  have noGenerics (ts : List Token) : genericsAhead (P ++ ts) = false := by
    simp only [genericsAhead, noLess, Bool.false_and]
  have noOption (ts : List Token) : Ahead.mark "?" (P ++ ts) = false :=
    first.ahead_mark (s := []) rfl (by decide)
  have noBang (ts : List Token) : Ahead.mark "!" (P ++ ts) = false :=
    first.ahead_mark (s := []) rfl (by decide)
  have attributes := innerAttributes_run read
    (c := ⟨body, some (.brace, Extent.nowhere), leftover, []⟩)
    (by simp only [plain, Bool.false_and])
  -- Each step up to the braces has one outcome.
  rw [implDeclaration, run_bind_of_ok (d := ⟨_, _, _, _⟩) rfl, run_bind_eq_ok]
  simp only [collect_eq_ok]
  rw [run_bind_of_ok rfl, run_bind_of_ok rfl, run_bind_of_ok rfl, run_bind_of_ok rfl,
    run_bind_of_ok (a := ()) (word_eq_ok.mpr ⟨_, _, rfl, rfl⟩), run_bind_of_ok (peek_run _)]
  simp only [noGenerics, Bool.false_eq_true, if_false]
  rw [run_bind_of_ok (peek_run _), run_bind_of_ok (peek_run _), run_bind_of_ok rfl]
  simp only [noConst, noOption, Bool.false_and, Bool.or_self, Bool.false_eq_true, if_false]
  rw [run_bind_of_ok rfl, run_bind_of_ok (peek_run _), run_bind_of_ok rfl]
  simp only [noBang, Bool.false_and, Bool.false_eq_true, if_false]
  rw [run_bind_of_ok rfl, run_bind_of_ok implemented, run_bind_of_ok rfl,
    run_bind_of_ok (d := ⟨inner, _, _, _⟩) rfl]
  simp only [if_true]
  rw [run_bind_of_ok own, run_bind_of_ok rfl]
  constructor
  · rintro ⟨⟨whole, collected⟩, f, ⟨x, run, rfl, rfl⟩, h⟩
    obtain ⟨_, _, braced, run⟩ := run_bind_eq_ok.mp run
    obtain ⟨_, _, _, _, content, here, members, rfl⟩ := inGroup_eq_ok.mp braced
    cases here
    cases run
    cases h
    rw [run_bind_of_ok attributes] at members
    exact ⟨content, members, rfl⟩
  · rintro ⟨content, members, rfl⟩
    refine ⟨(true, _), _, ⟨⟨us, inside, content.leftover <|> content.leftoverError?,
      (implPhrase (.node .path parts) name content.row.reverse).parts.reverse⟩, ?_, rfl, rfl⟩,
      rfl⟩
    refine run_bind_eq_ok.mpr ⟨(), _, inGroup_eq_ok.mpr ⟨_, _, _, _, content, rfl, ?_, rfl⟩, rfl⟩
    rw [run_bind_of_ok attributes]
    exact members

theorem implDeclaration_eq_ok {parts : List Phrase} (path : ReadsPathType P parts)
    (first : HasHead P) (free : name ∉ reservedWords) (enough : depth P ≤ n)
    (plain : Ahead.mark "#" body = false) (rest : c.rest = implTokens P name body ++ us)
    (clear : c.leftover = none) :
    implDeclaration (reader (n + 1)) c = .ok (u, d) ↔ ∃ content,
      untilEnd (implMember (reader (n + 1))) ⟨body, some (.brace, Extent.nowhere), none, []⟩ =
        .ok ((), content) ∧
      d = { c with
        rest := us
        leftover := content.leftover <|> content.leftoverError?
        row := implPhrase (.node .path parts) name content.row.reverse :: c.row } := by
  have rest : c.rest = .name "impl" Extent.nowhere :: (P ++ .name "for" Extent.nowhere ::
      .name name Extent.nowhere :: .group .brace body Extent.nowhere Extent.nowhere :: us) := by
    rw [rest]
    simp [implTokens, ident, names, inBraces, grouped]
  let behind : List Token := .name name Extent.nowhere ::
    .group .brace body Extent.nowhere Extent.nowhere :: us
  have implemented := path (c := ⟨P ++ .name "for" Extent.nowhere :: behind, c.inside, c.leftover,
    [.token (.name "impl" Extent.nowhere)]⟩) enough (.word "for" _ behind) rfl clear true
  rw [← clear]
  exact implDeclaration_of_types first rest implemented
    (type_word_run rfl free (.group _ _ _ _ _) true) plain

theorem outerAttribute_eq_ok (rest : c.rest = op "#" ++ inBrackets body ++ us)
    (h : outerAttribute read c = .ok (u, d)) :
    d.rest = us ∧ ∃ q, d.row = q :: c.row ∧ q.is .outerAttribute = true := by
  obtain ⟨f, run, rfl⟩ := node_eq_ok.mp h
  obtain ⟨_, _, sign, run⟩ := run_bind_eq_ok.mp run
  obtain ⟨_, _, _, here, rfl⟩ := (mark_eq_ok '#' rfl).mp sign
  obtain ⟨_, _, _, _, _, here', -, rfl⟩ := inGroup_eq_ok.mp run
  cases rest.symm.trans here
  cases here'
  exact ⟨rfl, _, rfl, rfl⟩

def attributeTokens (bodies : List (List Token)) : List Token :=
  bodies.flatMap fun body => op "#" ++ inBrackets body

theorem attributeTokens_eq_flatten (bodies : List (List Token)) :
    attributeTokens bodies = (bodies.map fun body => op "#" ++ inBrackets body).flatten :=
  List.flatMap_def ..

theorem length_le_attributeTokens (bodies : List (List Token)) :
    bodies.length ≤ (attributeTokens bodies).length := by
  rw [attributeTokens_eq_flatten, ← List.length_map fun body => op "#" ++ inBrackets body]
  refine length_le_length_flatten fun ts mem => ?_
  obtain ⟨body, -, rfl⟩ := List.mem_map.mp mem
  exact List.cons_ne_nil _ _

theorem outerAttributes_eq_ok {bodies : List (List Token)} (none : Ahead.mark "#" us = false)
    (clear : d.leftover = .none) (rest : c.rest = attributeTokens bodies ++ us)
    (h : outerAttributes (reader n) c = .ok (u, d)) :
    d.rest = us ∧ ∃ qs, d.row = qs ++ c.row ∧ qs.length = bodies.length ∧
      ∀ q ∈ qs, q.is .outerAttribute = true := by
  obtain ⟨_, _, got, h⟩ := run_bind_eq_ok.mp h
  cases got
  have enough : bodies.length < c.rest.length + 1 := by
    rw [rest, List.length_append]
    exact Nat.lt_succ_of_le ((length_le_attributeTokens bodies).trans (Nat.le_add_right _ _))
  obtain ⟨left, qs, row, all⟩ := repeatUpTo_eq_ok (fun ts => !Ahead.mark "#" ts)
    (p := outerAttribute (reader n)) (fun body => op "#" ++ inBrackets body)
    (R := fun _ q => q.is .outerAttribute = true)
    (fun body _ => ⟨fun us => rfl, fun rest _ run => outerAttribute_eq_ok rest run⟩) clear
    (by rw [none]; rfl) enough (by rw [rest, attributeTokens_eq_flatten]) h
  have own := ((List.forall₂_and_left _ _).mp (all.flip.imp fun _ _ own => ⟨own, trivial⟩)).1
  refine ⟨left, qs.reverse, row, by rw [List.length_reverse, all.length_eq], fun q mem => ?_⟩
  exact own q (List.mem_reverse.mp mem)

/-- The tokens of a public type without fields. -/
def structTokens (name : String) : List Token := names ["pub", "struct", name] ++ op ";"

/-- The phrase of a public type without fields. -/
def structPhrase (attributes : List Phrase) (name : String) : Phrase :=
  .node .structItem (attributes ++ [.node .visibility [.token (.name "pub" Extent.nowhere)],
    .token (.name "struct" Extent.nowhere), .node .itemName [.token (.name name Extent.nowhere)],
    .token (.mark ';' false Extent.nowhere)])

/-- A type without fields is read exactly if its name is no keyword. -/
theorem structDeclaration_eq_ok (rest : c.rest = structTokens name ++ us) :
    structDeclaration read c = .ok (u, d) ↔ name ∉ reservedWords ∧
      d = { c with rest := us, row := structPhrase [] name :: c.row } := by
  have rest : c.rest = .name "pub" Extent.nowhere :: .name "struct" Extent.nowhere ::
    .name name Extent.nowhere :: .mark ';' false Extent.nowhere :: us := rest
  rcases c with ⟨_, inside, leftover, row⟩
  cases rest
  rw [structDeclaration, node_eq_ok, run_bind_of_ok (a := ()) rfl, run_bind_of_ok (a := ()) rfl]
  constructor
  · rintro ⟨f, run, rfl⟩
    obtain ⟨_, _, named, run⟩ := run_bind_eq_ok.mp run
    obtain ⟨_, word, rfl⟩ := node_eq_ok.mp named
    obtain ⟨_, _, _, here, free, rfl⟩ := name_eq_ok.mp word
    cases here
    cases run
    exact ⟨free, rfl⟩
  · rintro ⟨free, rfl⟩
    refine ⟨⟨us, inside, leftover, (structPhrase [] name).parts.reverse⟩, ?_, rfl⟩
    exact run_bind_eq_ok.mpr ⟨_, _, node_eq_ok.mpr ⟨_, name_run rfl free, rfl⟩, rfl⟩

theorem itemAfterAttributes_struct (rest : c.rest = structTokens name ++ us) :
    itemAfterAttributes read c = (structDeclaration read >>= fun _ => pure true) c := by
  have rest : c.rest = .name "pub" Extent.nowhere :: .name "struct" Extent.nowhere ::
    .name name Extent.nowhere :: .mark ';' false Extent.nowhere :: us := rest
  rcases c with ⟨_, inside, leftover, row⟩
  cases rest
  rfl

theorem itemAfterAttributes_impl {e : Extent} (rest : c.rest = .name "impl" e :: us) :
    itemAfterAttributes read c = (implDeclaration read >>= fun _ => pure true) c := by
  rcases c with ⟨_, inside, leftover, row⟩
  cases rest
  rfl

/-- A declaration that is kept gets the attributes in front of it. -/
theorem item_eq_ok (bodies : List (List Token)) (none : Ahead.mark "#" ts = false)
    (rest : c.rest = attributeTokens bodies ++ ts) {p : Parser Unit}
    (kept : ∀ {c : Cursor}, c.rest = ts →
      itemAfterAttributes (reader n) c = (p >>= fun _ => pure true) c)
    {k : Kind} (role : k ≠ .verbatimItem) {R : List Phrase → Prop}
    (reads : ∀ {c d : Cursor}, c.rest = ts → d.leftover = .none → p c = .ok ((), d) →
      d.rest = us ∧ ∃ parts, R parts ∧ d.row = .node k parts :: c.row)
    (clear : d.leftover = .none) (h : item (reader n) c = .ok (u, d)) :
    d.rest = us ∧ ∃ attributes parts,
      attributes.length = bodies.length ∧ (∀ q ∈ attributes, q.is .outerAttribute = true) ∧
        R parts ∧ d.row = .node k (attributes ++ parts) :: c.row := by
  obtain ⟨_, _, got, h⟩ := run_bind_eq_ok.mp h
  cases got
  obtain ⟨⟨_, attributes⟩, _, collected, h⟩ := run_bind_eq_ok.mp h
  obtain ⟨x, run, rfl, rfl⟩ := collect_eq_ok.mp collected
  obtain ⟨stays, f, read, h⟩ := run_bind_eq_ok.mp h
  have clear' : f.leftover = .none := (Remembers.follows h).leftover clear
  obtain ⟨left, qs, added, length, all⟩ := outerAttributes_eq_ok (c := { c with row := [] })
    (d := x) none ((Remembers.follows read).leftover clear') rest run
  rw [kept (c := { x with row := c.row }) left] at read
  obtain ⟨_, _, run', read⟩ := run_bind_eq_ok.mp read
  cases read
  obtain ⟨left', parts, hold, row⟩ := reads (c := { x with row := c.row }) left clear' run'
  obtain ⟨_, _, last, h⟩ := run_bind_eq_ok.mp h
  cases last
  have lasts : f.row.head?.bind Phrase.kind? = some k := by rw [row]; rfl
  have stands : (some k != some Kind.verbatimItem) = true := by simpa using role
  simp only [lasts, stands, Bool.and_self, if_true] at h
  have prepended : d = { f with row := .node k (x.row.reverse ++ parts) :: c.row } := by
    rcases f with ⟨_, _, _, row'⟩
    cases row
    cases h
    rfl
  rw [added, List.append_nil] at prepended
  refine ⟨by rw [prepended, left'], qs.reverse, parts, by simp [length], fun q mem => ?_, hold,
    by rw [prepended]⟩
  exact all q (List.mem_reverse.mp mem)

theorem item_struct_eq_ok {bodies : List (List Token)}
    (rest : c.rest = attributeTokens bodies ++ (structTokens name ++ us))
    (clear : d.leftover = none) (h : item (reader n) c = .ok (u, d)) : d.rest = us ∧ ∃ attributes,
      (∀ q ∈ attributes, q.is .outerAttribute = true) ∧
        d.row = structPhrase attributes name :: c.row := by
  obtain ⟨left, attributes, parts, -, all, rfl, row⟩ :=
    item_eq_ok bodies (R := (· = (structPhrase [] name).parts)) rfl rest itemAfterAttributes_struct
      (k := .structItem) (by decide) (fun rest _ run => by
        obtain ⟨-, rfl⟩ := (structDeclaration_eq_ok rest).mp run
        exact ⟨rfl, _, rfl, rfl⟩) clear h
  exact ⟨left, attributes, all, row⟩

def AreMembersOf (n : Nat) (body : List Token) (members : List Phrase) : Prop :=
  ∃ (start : Cursor) (content : Cursor), start.rest = body ∧ start.row = [] ∧
    untilEnd (implMember (reader n)) start = .ok ((), content) ∧ content.leftover = none ∧
      members = content.row.reverse

theorem item_impl_eq_ok {parts : List Phrase} (path : ReadsPathType P parts) (first : HasHead P)
    (free : name ∉ reservedWords) (enough : depth P ≤ n) (plain : Ahead.mark "#" body = false)
    (rest : c.rest = implTokens P name body ++ us) (clear : d.leftover = none)
    (h : item (reader (n + 1)) c = .ok (u, d)) :
    d.rest = us ∧ ∃ members, AreMembersOf (n + 1) body members ∧
      d.row = implPhrase (.node .path parts) name members :: c.row := by
  obtain ⟨left, attributes, own, length, -, ⟨members, hold, rfl⟩, row⟩ :=
    item_eq_ok [] (R := fun own => ∃ members, AreMembersOf (n + 1) body members ∧
        own = (implPhrase (.node .path parts) name members).parts)
      rfl rest (fun rest => itemAfterAttributes_impl rest) (k := .implItem) (by decide)
      (fun rest clear run => by
        obtain ⟨content, members, rfl⟩ := (implDeclaration_eq_ok path first free enough plain rest
          ((Remembers.follows run).leftover clear)).mp run
        have spent : content.leftover = none := by
          dsimp only at clear
          cases left : content.leftover with
          | none => rfl
          | some fault => rw [left] at clear; cases clear
        exact ⟨rfl, _, ⟨_, ⟨_, content, rfl, rfl, members, spent, rfl⟩, rfl⟩, rfl⟩) clear h
  rw [List.length_eq_zero_iff.mp length] at row
  exact ⟨left, members, hold, row⟩

end FormulaBinding.Grammar
