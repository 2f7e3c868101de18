import FormulaBinding.Expansion.Arguments
import FormulaBinding.Proofs.Grammar.Leftovers
import FormulaBinding.Proofs.Grammar.PathEnds
import FormulaBinding.Proofs.Unit.TraitPath

/-!
# The arguments of a binding as a set

Arguments stand between commas, and a comma may follow the last one: the word `strict`, as often as
one likes, and each key at most once, with a path or a text behind an equals sign. A text is
accepted if and only if its tokens are such a list. What is asked for does not depend on the order.
-/

namespace FormulaBinding

open Grammar FormulaBinding.Parser

-- A rule has more steps than the search for instances looks at by default.
set_option synthInstance.maxSize 1000

namespace BindingKey

def name : BindingKey → String
  | .path .evaluator => "evaluator"
  | .path .runtime => "runtime"
  | .text .enclosure => "enclosure"
  | .text .scope => "namespace"
  | .text .suffix => "suffix"
  | .text .marker => "marker"

theorem ofName?_eq_some_iff {w : String} {k : BindingKey} : ofName? w = some k ↔ w = k.name := by
  constructor
  · intro h
    unfold ofName? at h
    split at h <;> cases h <;> rfl
  · rintro rfl
    rcases k with (_ | _) | (_ | _ | _ | _) <;> rfl

theorem name_ne_strictWord (k : BindingKey) : k.name ≠ strictWord := by
  rcases k with (_ | _) | (_ | _ | _ | _) <;> decide

theorem name_notMem_reservedWords (k : BindingKey) : k.name ∉ reservedWords := by
  rcases k with (_ | _) | (_ | _ | _ | _) <;> decide

end BindingKey

namespace BindingEntry

theorem path?_eq_some_iff {k : PathKey} {x : BindingEntry} {p : Phrase} :
    x.path? k = some p ↔ x = .path k p := by
  cases x with
  | path l q =>
    by_cases same : l = k
    · subst same
      simp [path?]
    · simp [path?, same]
  | _ => simp [path?]

theorem text?_eq_some_iff {k : TextKey} {x : BindingEntry} {t : TextLiteral} :
    x.text? k = some t ↔ x = .text k t := by
  cases x with
  | text l q =>
    by_cases same : l = k
    · subst same
      simp [text?]
    · simp [text?, same]
  | _ => simp [text?]

/-- What an argument says wherever it stands: the word `strict`, or a key with the path or the text
under it. -/
def content : BindingEntry → Option (BindingKey × String)
  | strict => none
  | path k p => some (.path k, p.text)
  | text k t => some (.text k, t.value)

theorem content_eq_path_iff {k : PathKey} {x : BindingEntry} {s : String} :
    x.content = some (.path k, s) ↔ ∃ p, x = .path k p ∧ p.text = s := by
  cases x <;> simp [content, and_assoc]

theorem content_eq_text_iff {k : TextKey} {x : BindingEntry} {s : String} :
    x.content = some (.text k, s) ↔ ∃ t, x = .text k t ∧ t.value = s := by
  cases x <;> simp [content, and_assoc]

end BindingEntry

def IsTextLiteral (literal : String) : Prop :=
  literal.toList.head? = some '"' ∨ literal.toList.head? = some 'r'

/-- The tokens of an argument. -/
inductive IsArgument : List Token → BindingEntry → Prop
  | strict (e : Extent) : IsArgument [.name strictWord e] .strict
  | path (k : PathKey) (e : Extent) (j : Bool) (e' : Extent) {value : List Token} {p : Phrase}
      (read : readPathTokens value = .ok p) :
      IsArgument (.name (BindingKey.path k).name e :: .mark '=' j e' :: value) (.path k p)
  | text (k : TextKey) (e : Extent) (j : Bool) (e' : Extent) {literal : String} (place : Extent)
      (text : IsTextLiteral literal) :
      IsArgument [.name (BindingKey.text k).name e, .mark '=' j e', .literal literal place]
        (.text k ⟨literal, place⟩)

/-- The tokens of arguments with commas between them, and perhaps one behind the last of them. -/
inductive IsArguments : List Token → List BindingEntry → Prop
  | nil : IsArguments [] []
  | last {us : List Token} {x : BindingEntry} (argument : IsArgument us x) : IsArguments us [x]
  | cons {us ts : List Token} {x : BindingEntry} {xs : List BindingEntry} (j : Bool) (e : Extent)
      (argument : IsArgument us x) (others : IsArguments ts xs) :
      IsArguments (us ++ .mark ',' j e :: ts) (x :: xs)

namespace BindingArguments

variable {read : Reader} {a n : Nat} {c d : Cursor} {x : BindingEntry}
variable {given xs : List BindingEntry} {us ts : List Token}

def EachOnce (entries : List BindingEntry) : Prop := (entries.filterMap BindingEntry.key?).Nodup

/-- Whether an argument has no key, or one that is not given yet. -/
def IsFresh (given : List BindingEntry) (x : BindingEntry) : Prop :=
  ∀ k, x.key? = some k → ∀ y ∈ given, y.key? ≠ some k

theorem eachOnce_concat : EachOnce (given ++ [x]) ↔ EachOnce given ∧ IsFresh given x := by
  rw [EachOnce, List.filterMap_append, List.nodup_append, EachOnce]
  refine and_congr_right fun _ => ?_
  cases key : x.key? with
  | none => simp [IsFresh, key]
  | some k =>
    have alone : [x].filterMap BindingEntry.key? = [k] := by simp [key]
    have fresh : IsFresh given x ↔ ∀ y ∈ given, y.key? ≠ some k := by simp [IsFresh, key]
    rw [alone, fresh]
    constructor
    · rintro ⟨-, apart⟩ y mem same
      exact apart k (List.mem_filterMap.mpr ⟨y, mem, same⟩) k List.mem_cons_self rfl
    · refine fun apart => ⟨List.nodup_singleton k, fun k' mem _ same => ?_⟩
      obtain ⟨y, mem, key⟩ := List.mem_filterMap.mp mem
      cases List.mem_singleton.mp same
      exact fun same => apart y mem (same ▸ key)

theorem EachOnce.left (h : EachOnce (given ++ xs)) : EachOnce given := by
  rw [EachOnce, List.filterMap_append] at h
  exact h.of_append_left

theorem ahead_stringLiteral_iff {literal : String} {place : Extent} :
    Ahead.stringLiteral (.literal literal place :: ts) = true ↔ IsTextLiteral literal := by
  rw [Ahead.stringLiteral, IsTextLiteral]
  cases literal.toList.head? with
  | none => simp
  | some x => simp

theorem stringLiteral_eq_ok {u : Unit} : stringLiteral c = .ok (u, d) ↔ ∃ literal place ts,
    c.rest = .literal literal place :: ts ∧ IsTextLiteral literal ∧
      d = { c with rest := ts, row := .token (.literal literal place) :: c.row } := by
  rw [stringLiteral, run_bind_eq_ok]
  constructor
  · rintro ⟨seen, _, peeked, run⟩
    cases peeked
    split at run
    · rename_i ahead
      generalize whole : c.rest = all at ahead
      rcases all with _ | ⟨t, ts⟩
      · cases ahead
      · cases t with
        | literal literal place =>
          rw [take_cons whole] at run
          cases run
          exact ⟨literal, place, ts, rfl, ahead_stringLiteral_iff.mp ahead, rfl⟩
        | _ => cases ahead
    · cases run
  · rintro ⟨literal, place, ts, rest, text, rfl⟩
    refine ⟨_, _, peek_run _, ?_⟩
    rw [rest, if_pos (ahead_stringLiteral_iff.mpr text)]
    exact take_cons rest

theorem readValue_path_eq_ok {k : PathKey} : readValue read (.path k) c = .ok (x, d) ↔
    ∃ e, pathParts read false { c with row := [] } = .ok ((), e) ∧
      x = .path k (written (.node .path e.row.reverse)) ∧ d = { e with row := c.row } := by
  rw [readValue, run_bind_eq_ok]
  constructor
  · rintro ⟨⟨_, row⟩, y, collected, run⟩
    obtain ⟨z, read, same, rfl⟩ := collect_eq_ok.mp collected
    obtain ⟨e, parts, rfl⟩ := node_eq_ok.mp read
    cases same
    cases run
    exact ⟨e, parts, rfl, rfl⟩
  · rintro ⟨e, parts, rfl, rfl⟩
    exact ⟨((), [.node .path e.row.reverse]), _, collect_eq_ok.mpr
      ⟨_, node_eq_ok.mpr ⟨e, parts, rfl⟩, rfl, rfl⟩, rfl⟩

theorem readValue_text_eq_ok {k : TextKey} : readValue read (.text k) c = .ok (x, d) ↔
    ∃ literal place ts, c.rest = .literal literal place :: ts ∧ IsTextLiteral literal ∧
      x = .text k ⟨literal, place⟩ ∧ d = { c with rest := ts } := by
  rw [readValue, run_bind_eq_ok]
  constructor
  · rintro ⟨⟨_, row⟩, y, collected, run⟩
    obtain ⟨z, read, same, rfl⟩ := collect_eq_ok.mp collected
    obtain ⟨literal, place, ts, rest, text, rfl⟩ := stringLiteral_eq_ok.mp read
    cases same
    cases run
    exact ⟨literal, place, ts, rest, text, rfl, rfl⟩
  · rintro ⟨literal, place, ts, rest, text, rfl, rfl⟩
    exact ⟨((), [.token (.literal literal place)]), _, collect_eq_ok.mpr ⟨_, stringLiteral_eq_ok.mpr
      ⟨literal, place, ts, rest, text, rfl⟩, rfl, rfl⟩, rfl⟩

theorem key?_of_readValue {k : BindingKey} (h : readValue read k c = .ok (x, d)) :
    x.key? = some k := by
  cases k with
  | path k =>
    obtain ⟨e, -, rfl, -⟩ := readValue_path_eq_ok.mp h
    rfl
  | text k =>
    obtain ⟨literal, place, ts, -, -, rfl, -⟩ := readValue_text_eq_ok.mp h
    rfl

theorem isFresh_iff {k : BindingKey} (key : x.key? = some k) :
    IsFresh given x ↔ (given.any fun y => y.key? == some k) = false := by
  simp [IsFresh, key]

theorem readEntry_eq_ok : readEntry read given c = .ok (x, d) ↔
    (∃ e ts, c.rest = .name strictWord e :: ts ∧ x = .strict ∧ d = { c with rest := ts }) ∨
    ∃ k e j e' ts, c.rest = .name (BindingKey.name k) e :: .mark '=' j e' :: ts ∧
      IsFresh given x ∧ readValue read k { c with
        rest := ts, row := .token (.mark '=' false e') :: c.row } = .ok (x, d) := by
  rw [readEntry, run_bind_eq_ok]
  constructor
  · rintro ⟨⟨_, row⟩, y, collected, run⟩
    obtain ⟨z, word, same, rfl⟩ := collect_eq_ok.mp collected
    obtain ⟨w, e, ts, rest, free, rfl⟩ := name_eq_ok.mp word
    cases same
    dsimp only [List.reverse_singleton] at run
    split at run
    · rename_i strict
      cases run
      exact .inl ⟨e, ts, strict ▸ rest, rfl, rfl⟩
    · obtain ⟨_, y, equals, run⟩ := run_bind_eq_ok.mp run
      obtain ⟨j, e', ts', rest', rfl⟩ := (mark_eq_ok '=' rfl).mp equals
      dsimp only at rest'
      cases named : BindingKey.ofName? w with
      | none =>
        rw [named] at run
        cases run
      | some k =>
        rw [named] at run
        obtain ⟨x', y, value, run⟩ := run_bind_eq_ok.mp run
        have key := key?_of_readValue value
        cases given' : given.any fun y => y.key? == some k with
        | true =>
          rw [given', if_pos rfl] at run
          cases run
        | false =>
          rw [given', if_neg Bool.false_ne_true] at run
          cases run
          rw [BindingKey.ofName?_eq_some_iff.mp named] at rest
          exact .inr ⟨k, e, j, e', ts', rest' ▸ rest, (isFresh_iff key).mpr given', value⟩
  · rintro (⟨e, ts, rest, rfl, rfl⟩ | ⟨k, e, j, e', ts, rest, fresh, value⟩)
    · exact ⟨((), [.token (.name strictWord e)]), _, collect_eq_ok.mpr
        ⟨_, name_run rest (by decide), rfl, rfl⟩, rfl⟩
    · refine ⟨((), [.token (.name k.name e)]), _, collect_eq_ok.mpr
        ⟨_, name_run rest k.name_notMem_reservedWords, rfl, rfl⟩, ?_⟩
      have key := key?_of_readValue value
      dsimp only [List.reverse_singleton]
      rw [if_neg k.name_ne_strictWord]
      refine run_bind_eq_ok.mpr ⟨(), _, (mark_eq_ok '=' rfl).mpr ⟨j, e', ts, rfl, rfl⟩, ?_⟩
      rw [BindingKey.ofName?_eq_some_iff.mpr rfl]
      refine run_bind_eq_ok.mpr ⟨x, d, value, ?_⟩
      rw [(isFresh_iff key).mp fresh]
      rfl

instance (k : BindingKey) : Remembers (readValue (reader a) k) where
  follows h := by
    cases k with
    | path k =>
      obtain ⟨e, parts, -, rfl⟩ := readValue_path_eq_ok.mp h
      obtain ⟨inside, leftover⟩ := Remembers.follows parts
      exact ⟨inside, leftover⟩
    | text k =>
      obtain ⟨literal, place, ts, -, -, -, rfl⟩ := readValue_text_eq_ok.mp h
      exact Cursor.follows_of_eq rfl rfl

instance : Remembers (readEntry (reader a) given) where
  follows h := by
    obtain ⟨e, ts, -, -, rfl⟩ | ⟨k, e, j, e', ts, -, -, value⟩ := readEntry_eq_ok.mp h
    · exact Cursor.follows_of_eq rfl rfl
    · obtain ⟨inside, leftover⟩ := Remembers.follows value
      exact ⟨inside, leftover⟩

instance (n : Nat) : Remembers (readEntries (reader a) n given) := by
  induction n generalizing given with
  | zero => dsimp only [readEntries]; infer_instance
  | succ n ih => dsimp only [readEntries]; infer_instance

/-- What is read as a path in front of a comma is a path by itself. -/
theorem readPathTokens_of_pathParts (deep : 2 * (Token.sizeList ts + 1) ≤ a)
    (h : pathParts (reader a) false { rest := ts } = .ok ((), d)) (leftover : d.leftover = none)
    (ends : EndsPath false d.rest) : ∃ us, ts = us ++ d.rest ∧
      readPathTokens us = .ok (written (.node .path d.row.reverse)) := by
  -- The depth for the tokens of the path may be less than that for all of them, so first what is
  -- behind the path is left out, and then the depth is changed.
  obtain ⟨us, whole, again⟩ := pathParts_cut deep deep (Nat.lt_succ_self _) h ends.arguments
  have alone := again [] endsPath_nil
  rw [List.append_nil] at alone
  have fewer : Token.sizeList us ≤ Token.sizeList ts := by
    rw [show ts = us ++ d.rest from whole, Token.sizeList_append]
    exact Nat.le_add_right _ _
  have within : 2 * (Token.sizeList us + 1) ≤ depth us := by rw [depth]; omega
  obtain ⟨us', whole', again'⟩ := pathParts_cut (by omega) within (Nat.lt_succ_self _) alone
    endsPath_nil.arguments
  have alone' := again' [] endsPath_nil
  rw [← whole'] at alone'
  exact ⟨us, whole, readPathTokens_eq_ok.mpr ⟨_, alone', rfl, leftover, rfl⟩⟩

theorem pathParts_of_readPathTokens {p : Phrase} (deep : 2 * (Token.sizeList us + 1) ≤ a)
    (h : readPathTokens us = .ok p) (ends : EndsPath false ts) :
    ∃ row, pathParts (reader a) false { rest := us ++ ts } = .ok ((), { rest := ts, row }) ∧
      p = written (.node .path row.reverse) := by
  obtain ⟨d, run, rest, leftover, rfl⟩ := readPathTokens_eq_ok.mp h
  have within : 2 * (Token.sizeList us + 1) ≤ depth us := by rw [depth]; omega
  have inside : d.inside = none := (Remembers.follows run).inside
  obtain ⟨us', whole, again⟩ := pathParts_cut within deep (Nat.lt_succ_self _) run
    (by rw [rest]; rfl)
  obtain ⟨_, _, _, row⟩ := d
  cases rest
  cases leftover
  cases inside
  rw [List.append_nil] at whole
  cases whole
  exact ⟨row, again ts ends, rfl⟩

variable {row : List Phrase}

/-- What is read as an argument in front of a comma is one by itself. -/
theorem exists_argument_of_readEntry (deep : 2 * (Token.sizeList ts + 1) ≤ a)
    (h : readEntry (reader a) given { rest := ts, row } = .ok (x, d)) (leftover : d.leftover = none)
    (ends : EndsPath false d.rest) :
    ∃ us, ts = us ++ d.rest ∧ IsArgument us x ∧ IsFresh given x := by
  obtain ⟨e, us, rest, rfl, rfl⟩ | ⟨k, e, j, e', us, rest, fresh, value⟩ := readEntry_eq_ok.mp h
  · exact ⟨_, rest, .strict e, nofun⟩
  · dsimp only at rest
    subst rest
    cases k with
    | path k =>
      obtain ⟨y, parts, rfl, rfl⟩ := readValue_path_eq_ok.mp value
      have fewer : 2 * (Token.sizeList us + 1) ≤ a := by
        rw [Token.sizeList, Token.sizeList] at deep
        omega
      obtain ⟨vs, whole, alone⟩ := readPathTokens_of_pathParts fewer parts leftover ends
      refine ⟨_ :: _ :: vs, ?_, .path k e j e' alone, fresh⟩
      rw [whole]
      rfl
    | text k =>
      obtain ⟨literal, place, vs, rest, text, rfl, rfl⟩ := readValue_text_eq_ok.mp value
      dsimp only at rest
      exact ⟨_, by rw [rest]; rfl, .text k e j e' place text, fresh⟩

/-- An argument by itself is read in front of a comma. -/
theorem readEntry_of_isArgument (argument : IsArgument us x) (fresh : IsFresh given x)
    (deep : 2 * (Token.sizeList us + 1) ≤ a) (ends : EndsPath false ts) :
    ∃ row', readEntry (reader a) given { rest := us ++ ts, row } =
      .ok (x, { rest := ts, row := row' }) := by
  cases argument with
  | strict e => exact ⟨row, readEntry_eq_ok.mpr (.inl ⟨e, ts, rfl, rfl, rfl⟩)⟩
  | @path k e j e' value p alone =>
    have fewer : 2 * (Token.sizeList value + 1) ≤ a := by
      rw [Token.sizeList, Token.sizeList] at deep
      omega
    obtain ⟨parts, run, rfl⟩ := pathParts_of_readPathTokens fewer alone ends
    exact ⟨_, readEntry_eq_ok.mpr (.inr ⟨.path k, e, j, e', value ++ ts, rfl, fresh,
      readValue_path_eq_ok.mpr ⟨_, run, rfl, rfl⟩⟩)⟩
  | text k e j e' place text =>
    exact ⟨_, readEntry_eq_ok.mpr (.inr ⟨.text k, e, j, e', _, rfl, fresh,
      readValue_text_eq_ok.mpr ⟨_, place, ts, rfl, text, rfl, rfl⟩⟩)⟩

theorem readEntries_succ_eq_ok : readEntries read (n + 1) given c = .ok (xs, d) ↔
    c.rest = [] ∧ xs = given ∧ d = c ∨
    ∃ x e, readEntry read given c = .ok (x, e) ∧ (e.rest = [] ∧ xs = given ++ [x] ∧ d = e ∨
      ∃ j place ts, e.rest = .mark ',' j place :: ts ∧ readEntries read n (given ++ [x]) { e with
        rest := ts, row := .token (.mark ',' false place) :: e.row } = .ok (xs, d)) := by
  have looks (c : Cursor) : atEnd c = .ok (c.rest.isEmpty, c) := rfl
  rw [readEntries, run_bind_eq_ok]
  constructor
  · rintro ⟨_, _, looked, run⟩
    cases looked
    split at run
    · rename_i none
      cases run
      exact .inl ⟨List.isEmpty_iff.mp none, rfl, rfl⟩
    · obtain ⟨x, e, entry, run⟩ := run_bind_eq_ok.mp run
      obtain ⟨_, _, looked, run⟩ := run_bind_eq_ok.mp run
      cases looked
      refine .inr ⟨x, e, entry, ?_⟩
      split at run
      · rename_i none
        cases run
        exact .inl ⟨List.isEmpty_iff.mp none, rfl, rfl⟩
      · obtain ⟨_, y, comma, run⟩ := run_bind_eq_ok.mp run
        obtain ⟨j, place, ts, rest, rfl⟩ := (mark_eq_ok ',' rfl).mp comma
        exact .inr ⟨j, place, ts, rest, run⟩
  · rintro (⟨none, rfl, rfl⟩ | ⟨x, e, entry, last | ⟨j, place, ts, rest, run⟩⟩)
    · refine ⟨_, _, looks _, ?_⟩
      rw [none]
      rfl
    all_goals
      obtain ⟨w, e', more, some⟩ : ∃ w e' ts, c.rest = .name w e' :: ts := by
        obtain ⟨e', ts, rest, -⟩ | ⟨k, e', j, e'', ts, rest, -⟩ := readEntry_eq_ok.mp entry
        · exact ⟨_, _, _, rest⟩
        · exact ⟨_, _, _, rest⟩
      refine ⟨_, _, looks _, ?_⟩
      rw [some]
      refine run_bind_eq_ok.mpr ⟨x, e, entry, run_bind_eq_ok.mpr ⟨_, _, looks _, ?_⟩⟩
    · obtain ⟨none, rfl, rfl⟩ := last
      rw [none]
      rfl
    · rw [rest]
      exact run_bind_eq_ok.mpr ⟨(), _, (mark_eq_ok ',' rfl).mpr ⟨j, place, ts, rest, rfl⟩, run⟩

/-- What is read up to the end are arguments with commas between them. -/
theorem isArguments_of_readEntries (deep : 2 * (Token.sizeList ts + 1) ≤ a)
    (enough : ts.length < n)
    (h : readEntries (reader a) n given { rest := ts, row } = .ok (xs, d))
    (leftover : d.leftover = none) (once : EachOnce given) :
    ∃ new, xs = given ++ new ∧ IsArguments ts new ∧ EachOnce xs := by
  induction n generalizing ts given row with
  | zero => exact absurd enough (Nat.not_lt_zero _)
  | succ n ih =>
    obtain ⟨rfl, rfl, -⟩ | ⟨x, e, entry, last | ⟨j, place, us, rest, run⟩⟩ :=
      readEntries_succ_eq_ok.mp h
    · exact ⟨[], (List.append_nil _).symm, .nil, once⟩
    · obtain ⟨none, rfl, rfl⟩ := last
      obtain ⟨us, rfl, argument, fresh⟩ :=
        exists_argument_of_readEntry deep entry leftover (none ▸ endsPath_nil)
      rw [none, List.append_nil]
      exact ⟨[x], rfl, .last argument, eachOnce_concat.mpr ⟨once, fresh⟩⟩
    · have before : e.leftover = none := (Remembers.follows run).leftover leftover
      have inside : e.inside = none := (Remembers.follows entry).inside
      obtain ⟨vs, rfl, argument, fresh⟩ :=
        exists_argument_of_readEntry deep entry before (rest ▸ endsPath_comma j place us)
      obtain ⟨_, _, _, _⟩ := e
      cases rest
      cases before
      cases inside
      rw [List.length_append, List.length_cons] at enough
      rw [Token.sizeList_append, Token.sizeList] at deep
      obtain ⟨new, rfl, others, once⟩ := ih (by omega) (by omega) run
        (eachOnce_concat.mpr ⟨once, fresh⟩)
      exact ⟨x :: new, List.append_assoc _ _ _, .cons j place argument others, once⟩

/-- Arguments with commas between them are read up to the end. -/
theorem readEntries_of_isArguments (arguments : IsArguments ts xs)
    (deep : 2 * (Token.sizeList ts + 1) ≤ a) (enough : ts.length < n)
    (once : EachOnce (given ++ xs)) :
    ∃ row', readEntries (reader a) n given { rest := ts, row } =
      .ok (given ++ xs, { rest := [], row := row' }) := by
  obtain ⟨n, rfl⟩ := Nat.exists_eq_succ_of_ne_zero (Nat.ne_zero_of_lt enough)
  induction arguments generalizing n given row with
  | nil => exact ⟨row, readEntries_succ_eq_ok.mpr (.inl ⟨rfl, List.append_nil _, rfl⟩)⟩
  | @last us x argument =>
    obtain ⟨row', entry⟩ := readEntry_of_isArgument argument (eachOnce_concat.mp once).2 deep
      endsPath_nil
    rw [List.append_nil] at entry
    exact ⟨row', readEntries_succ_eq_ok.mpr (.inr ⟨x, _, entry, .inl ⟨rfl, rfl, rfl⟩⟩)⟩
  | @cons us ts x xs j e argument others ih =>
    rw [List.append_cons given] at once ⊢
    rw [List.length_append, List.length_cons] at enough
    rw [Token.sizeList_append, Token.sizeList] at deep
    have first : 2 * (Token.sizeList us + 1) ≤ a := by omega
    have rest : 2 * (Token.sizeList ts + 1) ≤ a := by omega
    obtain ⟨n, rfl⟩ : ∃ m, n = m + 1 := ⟨n - 1, by omega⟩
    obtain ⟨row', entry⟩ := readEntry_of_isArgument argument (eachOnce_concat.mp once.left).2 first
      (endsPath_comma j e ts)
    obtain ⟨row'', run⟩ := ih rest once n (by omega)
    exact ⟨row'', readEntries_succ_eq_ok.mpr (.inr ⟨x, _, entry, .inr ⟨j, e, ts, rfl, run⟩⟩)⟩

theorem ofTokens_eq_ok {b : BindingArguments} :
    ofTokens ts = .ok b ↔ IsArguments ts b.entries ∧ EachOnce b.entries := by
  have deep : 2 * (Token.sizeList ts + 1) ≤ depth ts := by rw [depth]; omega
  rw [ofTokens, bind_eq_ok]
  constructor
  · rintro ⟨⟨xs, _⟩, run, same⟩
    cases same
    obtain ⟨d, run, -, leftover, -⟩ := runAll_eq_ok.mp run
    obtain ⟨new, rfl, arguments, once⟩ := isArguments_of_readEntries deep (Nat.lt_succ_self _) run
      leftover List.nodup_nil
    exact ⟨arguments, once⟩
  · rintro ⟨arguments, once⟩
    obtain ⟨row, run⟩ : ∃ row, readEntries (reader (depth ts)) (ts.length + 1) [] { rest := ts } =
        .ok (b.entries, { rest := [], row }) :=
      readEntries_of_isArguments arguments deep (Nat.lt_succ_self _) once
    exact ⟨_, runAll_eq_ok.mpr ⟨_, run, rfl, rfl, rfl⟩, rfl⟩

variable {b b' : BindingArguments} {k : BindingKey} {s : String}

theorem EachOnce.eq_of_key (once : EachOnce xs) {y : BindingEntry} (mem : x ∈ xs) (mem' : y ∈ xs)
    (key : x.key? = some k) (key' : y.key? = some k) : x = y := by
  have apart := List.pairwise_filterMap.mp once
  exact List.Pairwise.forall_of_forall_of_flip
    (R := fun x y => x.key? = some k → y.key? = some k → x = y) (fun _ _ _ _ => rfl)
    (apart.imp fun h key key' => absurd rfl (h k key k key'))
    (apart.imp fun h key key' => absurd rfl (h k key' k key)) mem mem' key key'

/-- Where each key is given once, what is found under one is what is given under it. -/
theorem EachOnce.findSome?_eq_some_iff {α : Type} (once : EachOnce xs) {f : BindingEntry → Option α}
    (keyed : ∀ y v, f y = some v → y.key? = some k) {v : α} :
    xs.findSome? f = some v ↔ ∃ y ∈ xs, f y = some v := by
  refine ⟨List.exists_of_findSome?_eq_some, ?_⟩
  rintro ⟨y, mem, value⟩
  obtain ⟨v', found⟩ := Option.isSome_iff_exists.mp
    (List.findSome?_isSome_iff.mpr ⟨y, mem, Option.isSome_iff_exists.mpr ⟨v, value⟩⟩)
  obtain ⟨y', mem', value'⟩ := List.exists_of_findSome?_eq_some found
  cases once.eq_of_key mem mem' (keyed y v value) (keyed y' v' value')
  exact found.trans (value'.symm.trans value)

/-- Whether two bindings have the same arguments in perhaps another order. -/
def IsReordering (b b' : BindingArguments) : Prop :=
  (b.entries.map BindingEntry.content).Perm (b'.entries.map BindingEntry.content)

theorem path?_eq_some_iff {k : PathKey} (once : EachOnce b.entries) :
    (b.path? k).map Phrase.text = some s ↔
      some (.path k, s) ∈ b.entries.map BindingEntry.content := by
  have keyed (y : BindingEntry) (p : Phrase) (found : y.path? k = some p) :
      y.key? = some (.path k) := by
    rw [BindingEntry.path?_eq_some_iff.mp found]
    rfl
  simp only [path?, Option.map_eq_some_iff, once.findSome?_eq_some_iff keyed, List.mem_map,
    BindingEntry.content_eq_path_iff, BindingEntry.path?_eq_some_iff]
  grind

theorem text?_eq_some_iff {k : TextKey} (once : EachOnce b.entries) :
    b.text? k = some s ↔ some (.text k, s) ∈ b.entries.map BindingEntry.content := by
  have keyed (y : BindingEntry) (t : TextLiteral) (found : y.text? k = some t) :
      y.key? = some (.text k) := by
    rw [BindingEntry.text?_eq_some_iff.mp found]
    rfl
  simp only [text?, literal?, Option.map_eq_some_iff, once.findSome?_eq_some_iff keyed,
    List.mem_map, BindingEntry.content_eq_text_iff, BindingEntry.text?_eq_some_iff]
  grind

theorem isStrict_iff : b.isStrict = true ↔ none ∈ b.entries.map BindingEntry.content := by
  have strict (x : BindingEntry) : x.isStrict = true ↔ x.content = none := by
    cases x <;> simp [BindingEntry.isStrict, BindingEntry.content]
  simp only [isStrict, List.any_eq_true, List.mem_map, strict]

/-- The marker, or what is wrong with its text, depends on the text alone. -/
theorem marker_mapError (b : BindingArguments) : b.marker.mapError ParseError.message =
    ((b.text? .marker).map fun path => (Marker.ofPath path).mapError fun path =>
      (ConfigurationError.badMarker path).message).getD (.ok Marker.standard) := by
  rw [marker, text?]
  cases b.literal? .marker with
  | none => rfl
  | some t =>
    simp only [Option.map_some, Option.getD_some]
    cases Marker.ofPath t.value <;> rfl

theorem configuration_mapError (b : BindingArguments) :
    b.configuration.mapError ParseError.message =
      (b.marker.mapError ParseError.message).map fun marker => {
        marker
        enclosure := ((b.text? .enclosure).map Enclosure.ofName).getD ({} : Configuration).enclosure
        evaluator := ((b.path? .evaluator).map Phrase.text).getD ({} : Configuration).evaluator
        runtime := ((b.path? .runtime).map Phrase.text).getD ({} : Configuration).runtime
        policy := if b.isStrict then .strict else ({} : Configuration).policy
        suffix := (b.text? .suffix).getD ({} : Configuration).suffix } := by
  rw [configuration]
  cases b.marker <;> rfl

namespace IsReordering

variable (same : IsReordering b b') (once : EachOnce b.entries) (once' : EachOnce b'.entries)
include same once once'

theorem path?_eq (k : PathKey) : (b.path? k).map Phrase.text = (b'.path? k).map Phrase.text :=
  Option.ext fun s => by
    rw [path?_eq_some_iff once, path?_eq_some_iff once', same.mem_iff]

theorem text?_eq (k : TextKey) : b.text? k = b'.text? k :=
  Option.ext fun s => by
    rw [text?_eq_some_iff once, text?_eq_some_iff once', same.mem_iff]

omit once once' in
theorem isStrict_eq : b.isStrict = b'.isStrict := by
  rw [Bool.eq_iff_iff, isStrict_iff, isStrict_iff, same.mem_iff]

theorem scope_eq : b.scope = b'.scope := by
  rw [scope, scope, same.text?_eq once once']

theorem configuration_eq : b.configuration.mapError ParseError.message =
    b'.configuration.mapError ParseError.message := by
  rw [configuration_mapError, configuration_mapError, marker_mapError, marker_mapError,
    same.isStrict_eq]
  simp only [same.text?_eq once once', same.path?_eq once once']

end IsReordering

theorem ofText_eq_ok {text : String} : ofText text = .ok b ↔
    ∃ ts, tokensOf text = .ok ts ∧ IsArguments ts b.entries ∧ EachOnce b.entries := by
  simp only [ofText, bind_eq_ok, ofTokens_eq_ok]

/-- Arguments are a set. A text is accepted if and only if its tokens are arguments with commas
between them, and perhaps one behind the last of them, that give no key twice. And in whatever order
the arguments of an accepted text stand, they ask for the same namespace and for the same
configuration, or the same is wrong with them. -/
theorem ofText_orderFree (text : String) (b : BindingArguments) :
    (ofText text = .ok b ↔
      ∃ ts, tokensOf text = .ok ts ∧ IsArguments ts b.entries ∧ EachOnce b.entries) ∧
    ∀ text' b', ofText text = .ok b → ofText text' = .ok b' → IsReordering b b' →
      b.scope = b'.scope ∧ b.configuration.mapError ParseError.message =
        b'.configuration.mapError ParseError.message := by
  refine ⟨ofText_eq_ok, fun text' b' accepted accepted' same => ?_⟩
  obtain ⟨-, -, -, once⟩ := ofText_eq_ok.mp accepted
  obtain ⟨-, -, -, once'⟩ := ofText_eq_ok.mp accepted'
  exact ⟨same.scope_eq once once', same.configuration_eq once once'⟩

/-- A path with a comma in it, and a text that is written in two ways. -/
theorem ofText_orderFree_of_swapped : ∃ b b',
    ofText "evaluator = a::B<c, d>, strict, marker = \"m\"," = .ok b ∧
    ofText "marker = r\"m\", strict, evaluator = a::B<c, d>" = .ok b' ∧ IsReordering b b' ∧
    b.scope = b'.scope ∧ b.configuration.mapError ParseError.message =
      b'.configuration.mapError ParseError.message := by
  have first : (do
      let b ← ofText "evaluator = a::B<c, d>, strict, marker = \"m\","
      return b.entries.map BindingEntry.content) =
        .ok [some (.path .evaluator, "a :: B < c , d >"), none, some (.text .marker, "m")] := by
    decide +kernel
  have second : (do
      let b ← ofText "marker = r\"m\", strict, evaluator = a::B<c, d>"
      return b.entries.map BindingEntry.content) =
        .ok [some (.text .marker, "m"), none, some (.path .evaluator, "a :: B < c , d >")] := by
    decide +kernel
  obtain ⟨b, read, said⟩ := bind_eq_ok.mp first
  obtain ⟨b', read', said'⟩ := bind_eq_ok.mp second
  have same : IsReordering b b' := by
    rw [IsReordering, Except.ok.inj said, Except.ok.inj said']
    decide
  exact ⟨b, b', read, read', same, (ofText_orderFree _ b).2 _ b' read read' same⟩

end BindingArguments
end FormulaBinding
