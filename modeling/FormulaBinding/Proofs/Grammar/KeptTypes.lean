import FormulaBinding.Proofs.Grammar.KeptPaths
import FormulaBinding.Proofs.Grammar.Operands

/-!
# Types that are written as they are read

References, pointers, slices, arrays, tuples, paths with arguments and trait objects are written as
they are read, if the types in them are: reading them again reads the same type.
-/

namespace FormulaBinding.Grammar
open FormulaBinding.Parser FormulaBinding.Token

variable {read : Reader} {plus : Bool} {c : Cursor} {j : Bool} {e o cl : Extent}
  {w : String} {S T body ts us : List Token}

/-! ## Where types start and end -/

/-- Words that a type may start with though they are reserved. -/
def typeWords : List String := ["super", "self", "Self", "crate", "_", "dyn", "impl"]

/-- How the tokens of a type start. -/
inductive StartsType : List Token → Prop
  | word {w : String} {S : List Token} (h : w ∉ reservedWords ∨ w ∈ typeWords) :
    StartsType (.name w Extent.nowhere :: S)
  | mark {x : Char} {j : Bool} {S : List Token} (h : x ∈ ['&', '*', '!', ':']) :
    StartsType (.mark x j Extent.nowhere :: S)
  | angle {S : List Token} (h : StartsType S) : StartsType (.mark '<' false Extent.nowhere :: S)
  | group {d : Delimiter} {body S : List Token} (h : d ≠ .brace) :
    StartsType (.group d body Extent.nowhere Extent.nowhere :: S)

namespace StartsType

variable (h : StartsType S)
include h

theorem append (T : List Token) : StartsType (S ++ T) := by
  induction h with
  | word h => exact .word h
  | mark h => exact .mark h
  | angle _ ih => exact .angle ih
  | group h => exact .group h

theorem ahead_mark {m : String} (mem : m ∈ [">", "=", "<=", "?"]) (spells : Respells ts S)
    (us : List Token) : Ahead.mark m (ts ++ us) = false := by
  simp only [List.mem_cons, List.not_mem_nil, or_false] at mem
  induction h generalizing ts m with
  | word => cases spells; rcases mem with rfl | rfl | rfl | rfl <;> rfl
  | @mark x j S h =>
    simp only [List.mem_cons, List.not_mem_nil, or_false] at h
    cases spells
    rcases h with rfl | rfl | rfl | rfl <;> rcases mem with rfl | rfl | rfl | rfl <;> rfl
  | angle _ ih =>
    cases spells with
    | @mark _ j _ e _ ts _ _ rest =>
      rcases mem with rfl | rfl | rfl | rfl
      · rfl
      · rfl
      · have equals := ih (m := "=") rest (.inr (.inl rfl))
        have parts : Ahead.mark "<=" (.mark '<' j e :: (ts ++ us)) =
            (true && j && Ahead.mark "=" (ts ++ us)) := rfl
        rw [List.cons_append, parts, equals, Bool.and_false]
      · rfl
  | group => cases spells; rcases mem with rfl | rfl | rfl | rfl <;> rfl

theorem ahead_lifetime (spells : Respells ts S) (us : List Token) :
    Ahead.lifetime (ts ++ us) = false := by
  cases h <;> cases spells <;> rfl

theorem ahead_word {v : String} (mem : v ∈ ["mut", "true", "false"]) (spells : Respells ts S)
    (us : List Token) : Ahead.word v (ts ++ us) = false := by
  cases h with
  | @word w _ h =>
    cases spells
    refine beq_eq_false_iff_ne.mpr ?_
    rintro rfl
    revert h
    simp only [List.mem_cons, List.not_mem_nil, or_false] at mem
    rcases mem with rfl | rfl | rfl <;> decide
  | mark => cases spells; rfl
  | angle => cases spells; rfl
  | group => cases spells; rfl

theorem ahead_literal (spells : Respells ts S) (us : List Token) :
    Ahead.literal (ts ++ us) = false := by
  have noTrue := h.ahead_word (v := "true") (by decide) spells us
  have noFalse := h.ahead_word (v := "false") (by decide) spells us
  cases h with
  | word =>
    cases spells
    simp only [List.cons_append, Ahead.word] at noTrue noFalse
    simp [Ahead.literal, noTrue, noFalse]
  | mark h =>
    simp only [List.mem_cons, List.not_mem_nil, or_false] at h
    cases spells
    rcases h with rfl | rfl | rfl | rfl <;> rfl
  | angle => cases spells; rfl
  | group => cases spells; rfl

theorem ahead_brace (spells : Respells ts S) (us : List Token) :
    Ahead.group .brace (ts ++ us) = false := by
  cases h with
  | group h => cases spells; exact beq_eq_false_iff_ne.mpr (Ne.symm h)
  | word => cases spells; rfl
  | mark => cases spells; rfl
  | angle => cases spells; rfl

end StartsType

/-- Whether a type ends in front of tokens, in a place where it may have several bounds if
`plus`. -/
structure EndsPlain (plus : Bool) (us : List Token) : Prop where
  path : EndsPath false us
  marks : ∀ m ∈ ["!", "->", "#"], Ahead.mark m us = false
  call : Ahead.group .parenthesis us = false
  bounds : plus = true → Ahead.mark "+" us = false

theorem endsPlain_nil (plus : Bool) : EndsPlain plus [] :=
  ⟨⟨rfl, rfl⟩, by decide, rfl, fun _ => rfl⟩

theorem endsPlain_mark {x : Char} (h : x ∈ [',', '>', ';', '=']) :
    EndsPlain plus (.mark x j e :: us) := by
  simp only [List.mem_cons, List.not_mem_nil, or_false] at h
  rcases h with rfl | rfl | rfl | rfl
  all_goals
    refine ⟨⟨rfl, rfl⟩, fun m mem => ?_, rfl, fun _ => rfl⟩
    simp only [List.mem_cons, List.not_mem_nil, or_false] at mem
    rcases mem with rfl | rfl | rfl <;> rfl

theorem endsPlain_plus : EndsPlain false (.mark '+' j e :: us) := by
  refine ⟨⟨rfl, rfl⟩, fun m mem => ?_, rfl, nofun⟩
  simp only [List.mem_cons, List.not_mem_nil, or_false] at mem
  rcases mem with rfl | rfl | rfl <;> rfl

theorem endsPlain_word (w : String) : EndsPlain plus (.name w e :: us) := by
  refine ⟨⟨rfl, rfl⟩, fun m mem => ?_, rfl, fun _ => rfl⟩
  simp only [List.mem_cons, List.not_mem_nil, or_false] at mem
  rcases mem with rfl | rfl | rfl <;> rfl

namespace EndsPlain

theorem weaken (h : EndsPlain plus us) : EndsPlain false us := ⟨h.path, h.marks, h.call, nofun⟩

theorem callAhead (h : EndsPlain plus us) : Grammar.callAhead us = false := by
  rw [Grammar.callAhead, h.call, h.path.colons]
  rfl

end EndsPlain

/-- Whether tokens are read as a type that is kept. -/
structure KeepsType (plus : Bool) (S : List Token) : Prop where
  starts : StartsType S
  reads : Reads 0 (fun read => type read plus) (EndsPlain plus) (fun qs => ∃ q, qs = [q]) S

theorem KeepsType.named (h : KeepsType plus S) : Reads 1 (fun read => read (.type plus))
    (EndsPlain plus) (fun qs => ∃ q, qs = [q]) S :=
  Yields.named h.reads

/-! ## Single tokens -/

theorem type_never (rest : c.rest = .mark '!' j e :: ts) :
    type read plus c = node .neverType (mark "!") c := by
  rcases c with ⟨_, inside, leftover, row⟩
  cases rest
  rfl

theorem keepsType_never : KeepsType plus (op "!") := by
  refine ⟨.mark (by decide), (((Reads.mark (m := "!") '!' rfl (k := 0)).node (r := .neverType)
    (by decide) (by decide)).congr ?_).mono (Nat.le_refl _) (fun _ _ => trivial)
      fun _ ⟨_, _, one⟩ => ⟨_, one⟩⟩
  intro read c d ts us spells _ rest run
  have spells : Respells ts [.mark '!' false Extent.nowhere] := spells
  cases spells
  rw [type_never rest]
  exact run

theorem type_infer (rest : c.rest = .name "_" e :: ts) :
    type read plus c = node .inferredType anyName c := by
  rcases c with ⟨_, inside, leftover, row⟩
  cases rest
  rfl

theorem keepsType_infer : KeepsType plus (ident "_") := by
  refine ⟨.word (.inr (by decide)), ((Reads.anyName.node (r := .inferredType) (by decide)
    (by decide)).congr ?_).mono (Nat.le_refl 0) (fun _ _ => trivial) fun _ ⟨_, _, one⟩ => ⟨_, one⟩⟩
  intro read c d ts us spells _ rest run
  cases spells
  rw [type_infer rest]
  exact run

/-! ## References and pointers -/

theorem type_reference (rest : c.rest = .mark '&' j e :: ts) : type read plus c =
    node .referenceType (do
      mark "&"
      discard lifetime?
      discard (word? "mut")
      read (.type false)) c := by
  rcases c with ⟨_, inside, leftover, row⟩
  cases rest
  rfl

theorem type_pointer (rest : c.rest = .mark '*' j e :: ts) : type read plus c =
    node .pointerType (do
      mark "*"
      if (← peek (Ahead.word "const")) || (← peek (Ahead.word "mut")) then anyName
      else expected ["`const`", "`mut`"]
      read (.type false)) c := by
  rcases c with ⟨_, inside, leftover, row⟩
  cases rest
  rfl

def lifetimeTokens (life : Option String) : List Token :=
  life.toList.map (.lifetime · Extent.nowhere)

def mutTokens (isMut : Bool) : List Token := if isMut then ident "mut" else []

theorem KeepsType.reads_mut (h : KeepsType false S) (isMut : Bool) :
    Reads 1 (fun read => discard (word? "mut") >>= fun _ => read (.type false)) (EndsPlain false)
      Whatever (mutTokens isMut ++ S) := by
  cases isMut with
  | true =>
    exact (Reads.word? (k := 0)).bind h.named (fun _ _ => trivial) (fun _ _ => trivial) (by omega)
      (by omega)
  | false =>
    exact (Reads.noWord (k := 0)).bind h.named (fun spells _ => h.starts.ahead_word (by decide)
      spells _) (fun _ _ => trivial) (by omega) (by omega)

theorem KeepsType.noLifetime (h : KeepsType false S) (isMut : Bool)
    (spells : Respells ts (mutTokens isMut ++ S)) : Ahead.lifetime (ts ++ us) = false := by
  cases isMut with
  | false => exact h.starts.ahead_lifetime spells us
  | true =>
    have spells : Respells ts (.name "mut" Extent.nowhere :: S) := spells
    cases spells
    rfl

theorem KeepsType.reference (h : KeepsType false S) (life : Option String) (isMut : Bool) :
    KeepsType plus (op "&" ++ (lifetimeTokens life ++ (mutTokens isMut ++ S))) := by
  refine ⟨.mark (by decide), ?_⟩
  have behind : Reads 1 (fun read => discard lifetime? >>= fun _ => discard (word? "mut") >>=
      fun _ => read (.type false)) (EndsPlain false) Whatever
      (lifetimeTokens life ++ (mutTokens isMut ++ S)) := by
    cases life with
    | some text =>
      exact (Reads.lifetime? text (k := 0)).bind (h.reads_mut isMut) (fun _ _ => trivial)
        (fun _ _ => trivial) (by omega) (by omega)
    | none =>
      exact (Reads.noLifetime (k := 0)).bind (h.reads_mut isMut)
        (fun spells _ => h.noLifetime isMut spells) (fun _ _ => trivial) (by omega) (by omega)
  have whole := (Reads.mark (m := "&") '&' rfl (k := 0)).bind (χ := Whatever) (m := 0) behind
    (fun _ _ => trivial) (fun _ _ => trivial) (by omega) (by decide)
  refine ((whole.node (r := .referenceType) (by decide) (by decide)).congr ?_).mono (Nat.le_refl _)
    (fun _ => EndsPlain.weaken) fun _ ⟨_, _, one⟩ => ⟨_, one⟩
  intro read c d ts us spells _ rest run
  have spells : Respells ts (.mark '&' false Extent.nowhere :: _) := spells
  cases spells
  rw [type_reference rest]
  exact run

theorem KeepsType.pointer (h : KeepsType false S) (mem : w ∈ ["const", "mut"]) :
    KeepsType plus (op "*" ++ (ident w ++ S)) := by
  refine ⟨.mark (by decide), ?_⟩
  have behind : Reads 1 (fun read => anyName >>= fun _ => read (.type false)) (EndsPlain false)
      Whatever (ident w ++ S) :=
    (Reads.anyName (k := 0)).bind h.named (fun _ _ => trivial) (fun _ _ => trivial) (by omega)
      (by omega)
  have whole := (Reads.mark (m := "*") '*' rfl (k := 0)).bind (χ := Whatever) (m := 0) behind
    (fun _ _ => trivial) (fun _ _ => trivial) (by omega) (by decide)
  refine ((whole.node (r := .pointerType) (by decide) (by decide)).congr ?_).mono (Nat.le_refl _)
    (fun _ => EndsPlain.weaken) fun _ ⟨_, _, one⟩ => ⟨_, one⟩
  intro read c d ts us spells _ rest run
  have spells : Respells ts (.mark '*' false Extent.nowhere :: .name w Extent.nowhere :: S) := spells
  cases spells with
  | @mark _ j _ e _ _ _ _ spells =>
    cases spells with
    | @name _ x _ ts _ spells =>
      have rest : c.rest = .mark '*' j e :: .name w x :: (ts ++ us) := rest
      rw [type_pointer rest]
      obtain ⟨e, inner, last⟩ := node_eq_ok.mp run
      refine node_eq_ok.mpr ⟨e, ?_, last⟩
      obtain ⟨_, f, first, behind⟩ := run_bind_eq_ok.mp inner
      refine run_bind_eq_ok.mpr ⟨_, f, first, ?_⟩
      obtain ⟨_, _, _, begin, rfl⟩ := (mark_eq_ok '*' rfl).mp first
      cases rest.symm.trans begin
      have among : (Ahead.word "const" (.name w x :: (ts ++ us)) ||
          Ahead.word "mut" (.name w x :: (ts ++ us))) = true := by
        simpa [Ahead.word] using mem
      refine run_bind_eq_ok.mpr ⟨_, _, peek_run _, run_bind_eq_ok.mpr ⟨_, _, peek_run _, ?_⟩⟩
      rw [among]
      exact behind

/-! ## Types in brackets and parentheses -/

/-- Reads what is in the brackets of a slice or an array, and says whether there is a length. -/
def bracketContent (read : Reader) : Parser Bool := do
  read (.type true)
  if ← mark? ";" then
    read (.expr true)
    return true
  return false

theorem type_brackets {isArray : Bool} {qs : List Phrase}
    (rest : c.rest = .group .bracket body o cl :: us)
    (inside : bracketContent read ⟨body, some (.bracket, cl), c.leftover, []⟩ =
      .ok (isArray, ⟨[], some (.bracket, cl), c.leftover, qs.reverse⟩)) :
    type read plus c = .ok ((), { c with
      rest := us
      row := .node (if isArray then .arrayType else .sliceType) [.group .bracket qs o cl] ::
        c.row }) := by
  rcases c with ⟨_, within, leftover, row⟩
  cases rest
  have group : collect (brackets (bracketContent read)) ⟨.group .bracket body o cl :: us, within,
      leftover, row⟩ = .ok ((isArray, [.group .bracket qs o cl]), ⟨us, within, leftover, row⟩) := by
    refine collect_eq_ok.mpr ⟨_, inGroup_eq_ok.mpr ⟨_, _, _, _, _, rfl, inside, rfl⟩, ?_, ?_⟩
    · simp
    · cases leftover <;> rfl
  have first : type read plus ⟨.group .bracket body o cl :: us, within, leftover, row⟩ =
      (collect (brackets (bracketContent read)) >>= fun x =>
        emit (.node (if x.1 then .arrayType else .sliceType) x.2))
          ⟨.group .bracket body o cl :: us, within, leftover, row⟩ := rfl
  exact first.trans (run_bind_eq_ok.mpr ⟨_, _, group, rfl⟩)

theorem keepsType_brackets {isArray : Bool}
    (h : Yields isArray 1 bracketContent (· = []) Whatever S) :
    KeepsType plus (Token.inBrackets S) := by
  refine ⟨.group (by decide), ⟨fun {n ts us c} enough spells ends rest => ?_⟩⟩
  obtain ⟨body, o, cl, rfl, within⟩ := spells.exists_of_grouped
  obtain ⟨qs, -, kept, run⟩ := h.run (n := n)
    (c := ⟨body, some (.bracket, cl), c.leftover, []⟩)
    (by simp only [inBrackets, grouped, sizeList, size] at enough ⊢; omega) within rfl
    (List.append_nil body).symm
  rw [List.append_nil] at run
  exact ⟨_, ⟨_, rfl⟩, (kept.group .bracket o cl).node (by cases isArray <;> decide)
    (by cases isArray <;> decide), type_brackets rest run⟩

theorem KeepsType.slice (h : KeepsType true S) : KeepsType plus (Token.inBrackets S) := by
  have none : Yields false 0 (fun read => mark? ";" >>= fun more => if more then do
      read (.expr true); return true else return false) (· = []) (· = []) [] := by
    refine ⟨fun {n ts us c} _ spells ends rest => ?_⟩
    rcases c with ⟨_, inside, leftover, row⟩
    cases spells
    cases ends
    cases rest
    exact ⟨[], rfl, .nil, rfl⟩
  have whole := h.named.bind (χ := Whatever) none (m := 1) ?_ (fun _ _ => trivial) (by omega)
    (by omega)
  · rw [List.append_nil] at whole
    exact keepsType_brackets whole
  · rintro ts us spells rfl
    cases spells
    exact endsPlain_nil true

theorem KeepsType.array (h : KeepsType true S) (text : String) : KeepsType plus
    (Token.inBrackets (S ++ (op ";" ++ [.literal text Extent.nowhere]))) := by
  have length : Yields true 0 (fun read => mark? ";" >>= fun more => if more then do
      read (.expr true); return true else return false) (· = []) Whatever
      (op ";" ++ [.literal text Extent.nowhere]) := by
    refine ⟨fun {n ts us c} enough spells ends rest => ?_⟩
    have spells : Respells ts [.mark ';' false Extent.nowhere, .literal text Extent.nowhere] := spells
    obtain ⟨n, rfl⟩ : ∃ m, n = m + 5 := ⟨n - 5, by simp only [op, sizeList_append, sizeList, size] at enough; omega⟩
    rcases c with ⟨_, inside, leftover, row⟩
    cases ends
    cases spells with
    | @mark _ _ _ e _ _ _ _ spells =>
      cases spells with
      | @literal _ e' _ _ _ spells =>
        cases spells
        cases rest
        have mark : AreKept [.token (.mark ';' false e)] (op ";") :=
          .token (.mark id .nil) (.mark id .nil)
        have literal : AreKept [.node .literalExpr [.token (.literal text e')]]
            [.literal text Extent.nowhere] :=
          (AreKept.token (.literal .nil) (.literal .nil)).node (by decide) (by decide)
        exact ⟨[.token (.mark ';' false e), .node .literalExpr [.token (.literal text e')]], trivial,
          mark.append literal, rfl⟩
  have whole := h.named.bind (χ := Whatever) length (m := 1) ?_ (fun _ _ => trivial) (by omega)
    (by omega)
  · exact keepsType_brackets whole
  · intro ts us spells _
    have spells : Respells ts [.mark ';' false Extent.nowhere, .literal text Extent.nowhere] := spells
    cases spells
    exact endsPlain_mark (by decide)

/-- Reads a type of a tuple and the comma behind it, and says whether there was one. -/
def elementStep (read : Reader) : Parser Bool := do
  if ← atEnd then return false
  read (.type true)
  if ← atEnd then return false
  mark ","
  return true

/-- Whether tokens are read as types with commas between them. -/
def KeepsElements (S : List Token) : Prop :=
  ∀ m > S.length, Reads 1 (fun read => repeatUpTo (elementStep read) m) (· = []) Whatever S

theorem keepsElements_nil : KeepsElements [] := by
  intro m some
  have stops : Yields false 1 elementStep (· = []) (· = []) [] := yields_nil fun {read c} ends => by
    rcases c with ⟨_, inside, leftover, row⟩
    cases ends
    rfl
  exact (stops.loop some).mono (Nat.le_refl _) (fun _ => id) fun _ _ => trivial

theorem StartsType.ne_nil (h : StartsType S) (spells : Respells ts S) (us : List Token) :
    ts ++ us ≠ [] := by
  cases h <;> cases spells <;> exact List.cons_ne_nil _ _

theorem StartsType.length_pos (h : StartsType S) : 0 < S.length := by
  cases h <;> simp

theorem KeepsType.last (h : KeepsType true S) :
    Yields false 1 elementStep (· = []) Whatever S := by
  refine ⟨fun {n ts us c} enough spells ends rest => ?_⟩
  cases ends
  obtain ⟨qs, -, kept, run⟩ := h.named.run enough spells (endsPlain_nil true) rest
  refine ⟨qs, trivial, kept, run_bind_eq_ok.mpr
    ⟨_, _, atEnd_run (by rw [rest]; exact h.starts.ne_nil spells _), ?_⟩⟩
  exact run_bind_eq_ok.mpr ⟨_, _, run, rfl⟩

theorem KeepsType.more (h : KeepsType true S) :
    Yields true 1 elementStep Whatever Whatever (S ++ op ",") := by
  have behind : Yields true 0 (fun _ => do
      if ← atEnd then return false
      Parser.mark ","
      return true) Whatever Whatever (op ",") := by
    refine ⟨fun {n ts us c} _ spells _ rest => ?_⟩
    rcases c with ⟨_, inside, leftover, row⟩
    have spells : Respells ts [.mark ',' false Extent.nowhere] := spells
    cases spells with
    | @mark _ j _ e _ _ _ _ spells =>
      cases spells
      cases rest
      exact ⟨[.token (.mark ',' false e)], trivial, .token (.mark id .nil) (.mark id .nil), rfl⟩
  have whole := h.named.bind (χ := Whatever) behind (m := 1) ?_ (fun _ _ => trivial) (by omega)
    (by omega)
  · refine ⟨fun {n ts us c} enough spells ends rest => ?_⟩
    obtain ⟨qs, hold, kept, run⟩ := whole.run enough spells ends rest
    refine ⟨qs, hold, kept, run_bind_eq_ok.mpr ⟨_, _, atEnd_run ?_, run⟩⟩
    rw [rest]
    exact (h.starts.append _).ne_nil spells us
  · intro ts us spells _
    have spells : Respells ts [.mark ',' false Extent.nowhere] := spells
    cases spells
    exact endsPlain_mark (by decide)

theorem KeepsType.keepsElements (h : KeepsType true S) : KeepsElements S :=
  fun _ some => h.last.loop some

theorem KeepsType.keepsElements_append (h : KeepsType true S) (others : KeepsElements T) :
    KeepsElements (S ++ op "," ++ T) := fun _ some =>
  h.more.loop_append (χ := Whatever) (by simp [op, markList]) others (fun _ _ => trivial)
    (fun _ _ => trivial) some

theorem KeepsElements.separated (h : KeepsElements S) :
    Reads 1 (fun read => separated "," (read (.type true))) (· = []) Whatever S :=
  Yields.repeatWhile h

/-- Reads what is in the parentheses of a type, and says whether there is a comma. -/
def parenContent (read : Reader) : Parser Bool := do
  read (.type true)
  if ← peek (Ahead.mark ",") then
    mark ","
    separated "," (read (.type true))
    return true
  return false

theorem type_unit (rest : c.rest = .group .parenthesis [] o cl :: us) : type read plus c =
    .ok ((), { c with
      rest := us
      row := .node .tupleType [.group .parenthesis [] o cl] :: c.row }) := by
  rcases c with ⟨_, within, leftover, row⟩
  cases rest
  cases leftover <;> rfl

theorem keepsType_unit : KeepsType plus (Token.inParens []) := by
  refine ⟨.group (by decide), ⟨fun {n ts us c} _ spells _ rest => ?_⟩⟩
  obtain ⟨body, o, cl, rfl, within⟩ := spells.exists_of_grouped
  cases within
  exact ⟨_, ⟨_, rfl⟩, (AreKept.nil.group .parenthesis o cl).node (by decide) (by decide),
    type_unit rest⟩

theorem type_parens {isTuple : Bool} {qs : List Phrase}
    (rest : c.rest = .group .parenthesis body o cl :: us) (nonempty : body.isEmpty = false)
    (noLifetime : Ahead.lifetime body = false) (noQuestion : Ahead.mark "?" body = false)
    (more : plus = true → Ahead.mark "+" us = false)
    (inside : parenContent read ⟨body, some (.parenthesis, cl), c.leftover, []⟩ =
      .ok (isTuple, ⟨[], some (.parenthesis, cl), c.leftover, qs.reverse⟩)) :
    type read plus c = .ok ((), { c with
      rest := us
      row := .node (if isTuple then .tupleType else .parenType) [.group .parenthesis qs o cl] ::
        c.row }) := by
  rcases c with ⟨_, within, leftover, row⟩
  cases rest
  have group : collect (parens (parenContent read)) ⟨.group .parenthesis body o cl :: us, within,
      leftover, row⟩ =
        .ok ((isTuple, [.group .parenthesis qs o cl]), ⟨us, within, leftover, row⟩) := by
    refine collect_eq_ok.mpr ⟨_, inGroup_eq_ok.mpr ⟨_, _, _, _, _, rfl, inside, rfl⟩, ?_, ?_⟩
    · simp
    · cases leftover <;> rfl
  have first : type read plus ⟨.group .parenthesis body o cl :: us, within, leftover, row⟩ =
      parenType read plus ⟨.group .parenthesis body o cl :: us, within, leftover, row⟩ := rfl
  rw [first]
  refine run_bind_eq_ok.mpr ⟨_, _, rfl, ?_⟩
  simp only [List.head?_cons, Option.elim_some, nonempty, noLifetime, noQuestion,
    Bool.false_eq_true, if_false]
  refine run_bind_eq_ok.mpr ⟨_, _, group, ?_⟩
  cases isTuple with
  | true => rfl
  | false =>
    simp only [Bool.false_eq_true, if_false]
    refine run_bind_eq_ok.mpr ⟨_, _, peek_run _, ?_⟩
    cases plus with
    | false => rfl
    | true =>
      simp only [more rfl, Bool.and_false]
      rfl

theorem keepsType_parens {isTuple : Bool} (starts : StartsType S)
    (h : Yields isTuple 1 parenContent (· = []) Whatever S) :
    KeepsType plus (Token.inParens S) := by
  refine ⟨.group (by decide), ⟨fun {n ts us c} enough spells ends rest => ?_⟩⟩
  obtain ⟨body, o, cl, rfl, within⟩ := spells.exists_of_grouped
  obtain ⟨qs, -, kept, run⟩ := h.run (n := n)
    (c := ⟨body, some (.parenthesis, cl), c.leftover, []⟩)
    (by simp only [inParens, grouped, sizeList, size] at enough ⊢; omega) within rfl
    (List.append_nil body).symm
  have noLifetime := starts.ahead_lifetime within []
  have noQuestion := starts.ahead_mark (m := "?") (by decide) within []
  have nonempty := starts.ne_nil within []
  rw [List.append_nil] at noLifetime noQuestion nonempty run
  exact ⟨_, ⟨_, rfl⟩, (kept.group .parenthesis o cl).node (by cases isTuple <;> decide)
    (by cases isTuple <;> decide), type_parens rest (by simpa using nonempty) noLifetime noQuestion
      ends.bounds run⟩

theorem KeepsType.paren (h : KeepsType true S) : KeepsType plus (Token.inParens S) := by
  have none : Yields false 0 (fun read => peek (Ahead.mark ",") >>= fun more => if more then do
      Parser.mark ","; separated "," (read (.type true)); return true else return false)
      (· = []) (· = []) [] := by
    refine ⟨fun {n ts us c} _ spells ends rest => ?_⟩
    rcases c with ⟨_, inside, leftover, row⟩
    cases spells
    cases ends
    cases rest
    exact ⟨[], rfl, .nil, rfl⟩
  have whole := h.named.bind (χ := Whatever) none (m := 1) ?_ (fun _ _ => trivial) (by omega)
    (by omega)
  · rw [List.append_nil] at whole
    exact keepsType_parens h.starts whole
  · rintro ts us spells rfl
    cases spells
    exact endsPlain_nil true

theorem KeepsType.tuple (h : KeepsType true S) (others : KeepsElements T) :
    KeepsType plus (Token.inParens (S ++ (op "," ++ T))) := by
  have more : Reads 1 (fun read => Parser.mark "," >>= fun _ => separated "," (read (.type true)))
      (· = []) Whatever (op "," ++ T) :=
    (Reads.mark (m := ",") ',' rfl (k := 0)).bind others.separated (fun _ _ => trivial)
      (fun _ _ => trivial) (by omega) (by omega)
  have behind : Yields true 1 (fun read => peek (Ahead.mark ",") >>= fun more => if more then do
      Parser.mark ","; separated "," (read (.type true)); return true else return false)
      (· = []) Whatever (op "," ++ T) := by
    refine ⟨fun {n ts us c} enough spells ends rest => ?_⟩
    obtain ⟨qs, hold, kept, run⟩ := more.run enough spells ends rest
    refine ⟨qs, hold, kept, run_bind_eq_ok.mpr ⟨_, _, peek_run _, ?_⟩⟩
    have comma : Ahead.mark "," c.rest = true := by
      have spells : Respells ts (.mark ',' false Extent.nowhere :: T) := spells
      rw [rest]
      cases spells
      rfl
    rw [comma]
    obtain ⟨_, d, first, second⟩ := run_bind_eq_ok.mp run
    exact run_bind_eq_ok.mpr ⟨_, d, first, run_bind_eq_ok.mpr ⟨_, _, second, rfl⟩⟩
  have whole := h.named.bind (χ := Whatever) behind (m := 1) ?_ (fun _ _ => trivial) (by omega)
    (by omega)
  · exact keepsType_parens (h.starts.append _) whole
  · intro ts us spells _
    have spells : Respells ts (.mark ',' false Extent.nowhere :: T) := spells
    cases spells
    exact endsPlain_mark (by decide)

end FormulaBinding.Grammar
