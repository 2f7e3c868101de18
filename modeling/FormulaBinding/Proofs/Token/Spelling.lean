import FormulaBinding.Token.Basic

/-!
# Tokens wherever they stand

A token list is compared with one that it spells: the same tokens at any places, where a mark may
stand closer to what comes behind it than in the other list.
-/

namespace FormulaBinding.Token

/-- Whether tokens are those of a list but for their places, with each joined mark of the list
joined. -/
inductive Respells : List Token → List Token → Prop
  | nil : Respells [] []
  | name {w : String} {e e' : Extent} {ts us : List Token} (rest : Respells ts us) :
    Respells (.name w e :: ts) (.name w e' :: us)
  | mark {x : Char} {j j' : Bool} {e e' : Extent} {ts us : List Token} (joined : j' = true → j = true)
    (rest : Respells ts us) : Respells (.mark x j e :: ts) (.mark x j' e' :: us)
  | lifetime {text : String} {e e' : Extent} {ts us : List Token} (rest : Respells ts us) :
    Respells (.lifetime text e :: ts) (.lifetime text e' :: us)
  | literal {text : String} {e e' : Extent} {ts us : List Token} (rest : Respells ts us) :
    Respells (.literal text e :: ts) (.literal text e' :: us)
  | group {d : Delimiter} {body body' ts us : List Token} {o o' c c' : Extent}
    (inside : Respells body body') (rest : Respells ts us) :
    Respells (.group d body o c :: ts) (.group d body' o' c' :: us)

variable {ts us vs S T : List Token}

namespace Respells

theorem append (first : Respells ts S) (second : Respells us T) : Respells (ts ++ us) (S ++ T) := by
  induction first with
  | nil => exact second
  | name _ ih => exact .name ih
  | mark joined _ ih => exact .mark joined ih
  | lifetime _ ih => exact .lifetime ih
  | literal _ ih => exact .literal ih
  | group inside _ _ ih => exact .group inside ih

theorem exists_of_append (h : Respells ts (S ++ T)) :
    ∃ us vs, ts = us ++ vs ∧ Respells us S ∧ Respells vs T := by
  induction S generalizing ts with
  | nil => exact ⟨[], ts, rfl, .nil, h⟩
  | cons s S ih =>
    cases h with
    | name rest =>
      obtain ⟨us, vs, rfl, first, second⟩ := ih rest
      exact ⟨_ :: us, vs, rfl, .name first, second⟩
    | mark joined rest =>
      obtain ⟨us, vs, rfl, first, second⟩ := ih rest
      exact ⟨_ :: us, vs, rfl, .mark joined first, second⟩
    | lifetime rest =>
      obtain ⟨us, vs, rfl, first, second⟩ := ih rest
      exact ⟨_ :: us, vs, rfl, .lifetime first, second⟩
    | literal rest =>
      obtain ⟨us, vs, rfl, first, second⟩ := ih rest
      exact ⟨_ :: us, vs, rfl, .literal first, second⟩
    | group inside rest =>
      obtain ⟨us, vs, rfl, first, second⟩ := ih rest
      exact ⟨_ :: us, vs, rfl, .group inside first, second⟩

theorem exists_of_grouped {d : Delimiter} {body : List Token} {o' c' : Extent}
    (h : Respells ts [.group d body o' c']) : ∃ us o c, ts = [.group d us o c] ∧ Respells us body := by
  cases h with
  | group inside rest =>
    cases rest
    exact ⟨_, _, _, rfl, inside⟩

theorem sizeList_eq (h : Respells ts S) : sizeList ts = sizeList S := by
  induction h with
  | nil => rfl
  | group _ _ inside rest => simp only [sizeList, size, inside, rest]
  | _ => simp only [sizeList, size, *]

theorem length_eq (h : Respells ts S) : ts.length = S.length := by
  induction h with
  | nil => rfl
  | group _ _ _ ih => simpa using ih
  | mark _ _ ih => simpa using ih
  | _ _ ih => simpa using ih

theorem trans (first : Respells ts us) (second : Respells us vs) : Respells ts vs := by
  induction first generalizing vs with
  | nil => exact second
  | name _ ih => cases second with | name rest => exact .name (ih rest)
  | mark joined _ ih =>
    cases second with | mark joined' rest => exact .mark (joined ∘ joined') (ih rest)
  | lifetime _ ih => cases second with | lifetime rest => exact .lifetime (ih rest)
  | literal _ ih => cases second with | literal rest => exact .literal (ih rest)
  | group _ _ ih ih' =>
    cases second with | group inside rest => exact .group (ih inside) (ih' rest)

theorem isEmpty_eq (h : Respells ts us) : ts.isEmpty = us.isEmpty := by cases h <;> rfl

end Respells

theorem textList_cons (t : Token) (ts : List Token) : textList (t :: ts) =
    text t ++ (if ts.isEmpty || t.isJoined then "" else " ") ++ textList ts := by
  cases ts with
  | nil => simp [textList]
  | cons u us =>
    rw [textList]
    · rfl
    · exact nofun

theorem text_group (d : Delimiter) (body : List Token) (o c : Extent) : text (.group d body o c) =
    match d with
    | .parenthesis => "(" ++ textList body ++ ")"
    | .bracket => "[" ++ textList body ++ "]"
    | .brace => if body.isEmpty then "\x7b \x7d" else "\x7b " ++ textList body ++ " \x7d" := by
  cases d with
  | parenthesis => rw [text]
  | bracket => rw [text]
  | brace => cases body <;> rfl

theorem Respells.textList_eq (h : Respells ts us) (h' : Respells us ts) : textList ts = textList us := by
  induction h with
  | nil => rfl
  | name rest ih =>
    cases h' with | name rest' => rw [textList_cons, textList_cons, ih rest', rest.isEmpty_eq]; rfl
  | mark joined rest ih =>
    cases h' with
    | mark joined' rest' =>
      rw [textList_cons, textList_cons, ih rest', rest.isEmpty_eq]
      simp only [isJoined, Bool.eq_iff_iff.mpr ⟨joined', joined⟩]
      rfl
  | lifetime rest ih =>
    cases h' with
    | lifetime rest' => rw [textList_cons, textList_cons, ih rest', rest.isEmpty_eq]; rfl
  | literal rest ih =>
    cases h' with
    | literal rest' => rw [textList_cons, textList_cons, ih rest', rest.isEmpty_eq]; rfl
  | group inside rest ih ih' =>
    cases h' with
    | group inside' rest' =>
      rw [textList_cons, textList_cons, ih' rest', rest.isEmpty_eq, text_group, text_group,
        ih inside', inside.isEmpty_eq]
      rfl

end FormulaBinding.Token
