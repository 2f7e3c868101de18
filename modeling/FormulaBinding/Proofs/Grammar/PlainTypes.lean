import FormulaBinding.Proofs.Grammar.Elsewhere
import FormulaBinding.Proofs.Grammar.KeptBounds
import FormulaBinding.Proofs.Identifier
import FormulaBinding.Proofs.Token.Texts

/-!
# Plain types

References, pointers, slices, arrays, tuples, paths with arguments and types of bounds, by the rules
that they are written by: the text of each is read as a type that is written as it is, so that it is
read as the same type again.
-/

namespace FormulaBinding.Grammar
open FormulaBinding.Parser FormulaBinding.Token
open Lexer (IsLifetime IsNumber)
open Text (IsName IsWord)

instance : DecidablePred IsName := fun _ => inferInstanceAs (Decidable (_ ∧ _))

/-- The parts of types. -/
inductive Part
  /-- A type, in a place where it may have several bounds if `plus`. -/
  | type (plus : Bool)
  /-- Types with commas between them. -/
  | elements
  | segment
  /-- The segments of a path behind the first one. -/
  | segments
  | path
  /-- The path of a bound, with the arguments of a function behind it if it has some. -/
  | trait
  /-- A bound, one that is no lifetime if `t`. -/
  | bound (t : Bool)
  /-- Bounds, in a place where there may be several if `plus`, one of them no lifetime if `t`. -/
  | bounds (plus t : Bool)
  /-- An argument of a path, a lifetime if `l`. -/
  | argument (l : Bool)
  /-- Arguments of a path, lifetimes first; none may be a lifetime if `l` is false. -/
  | arguments (l : Bool)

/-- The tokens that parts of types are written with. -/
inductive IsPlain : Part → List Token → Prop
  | never {plus : Bool} : IsPlain (.type plus) (op "!")
  | infer {plus : Bool} : IsPlain (.type plus) (ident "_")
  | reference {plus : Bool} {S : List Token} (life : Option String)
    (spelled : ∀ text ∈ life, IsLifetime text) (isMut : Bool) (target : IsPlain (.type false) S) :
    IsPlain (.type plus) (op "&" ++ (lifetimeTokens life ++ (mutTokens isMut ++ S)))
  | pointer {plus : Bool} {w : String} {S : List Token} (word : w ∈ ["const", "mut"])
    (target : IsPlain (.type false) S) : IsPlain (.type plus) (op "*" ++ (ident w ++ S))
  | slice {plus : Bool} {S : List Token} (element : IsPlain (.type true) S) :
    IsPlain (.type plus) (inBrackets S)
  | array {plus : Bool} {S : List Token} (element : IsPlain (.type true) S) {text : String}
    (number : IsNumber text) :
    IsPlain (.type plus) (inBrackets (S ++ (op ";" ++ [.literal text Extent.nowhere])))
  | unit {plus : Bool} : IsPlain (.type plus) (inParens [])
  | paren {plus : Bool} {S : List Token} (inside : IsPlain (.type true) S) :
    IsPlain (.type plus) (inParens S)
  | tuple {plus : Bool} {S T : List Token} (first : IsPlain (.type true) S)
    (others : IsPlain .elements T) : IsPlain (.type plus) (inParens (S ++ (op "," ++ T)))
  | pathType {plus : Bool} {S : List Token} (path : IsPlain .path S) : IsPlain (.type plus) S
  | dynamic {plus : Bool} {S : List Token} (bounds : IsPlain (.bounds plus true) S) :
    IsPlain (.type plus) (ident "dyn" ++ S)
  | impl {plus : Bool} {S : List Token} (bounds : IsPlain (.bounds plus true) S) :
    IsPlain (.type plus) (ident "impl" ++ S)
  | noElements : IsPlain .elements []
  | element {S : List Token} (last : IsPlain (.type true) S) : IsPlain .elements S
  | moreElements {S T : List Token} (first : IsPlain (.type true) S)
    (others : IsPlain .elements T) : IsPlain .elements (S ++ op "," ++ T)
  | word {w : String} (word : w = "Self" ∨ IsSegment w) (spelled : IsWord w.toList) :
    IsPlain .segment (ident w)
  | generic {w : String} {S : List Token} (word : w = "Self" ∨ w ∉ reservedWords)
    (spelled : IsWord w.toList) (arguments : IsPlain (.arguments true) S) :
    IsPlain .segment (ident w ++ (op "<" ++ (S ++ op ">")))
  | noSegments : IsPlain .segments []
  | moreSegments {S T : List Token} (first : IsPlain .segment S) (others : IsPlain .segments T) :
    IsPlain .segments ((op "::" ++ S) ++ T)
  | path {w : String} {S T : List Token} (head : w ∉ reservedWords ∨ w ∈ rootWords)
    (first : IsPlain .segment (.name w Extent.nowhere :: S)) (others : IsPlain .segments T) :
    IsPlain .path (.name w Extent.nowhere :: S ++ T)
  | rooted {S T : List Token} (first : IsPlain .segment S) (others : IsPlain .segments T) :
    IsPlain .path ((op "::" ++ S) ++ T)
  | trait {S : List Token} (path : IsPlain .path S) : IsPlain .trait S
  | function {w : String} {S : List Token} (name : IsName w)
    (inputs : IsPlain .elements S) : IsPlain .trait (ident w ++ (inParens S ++ []))
  | functionTo {w : String} {S T : List Token} (name : IsName w)
    (inputs : IsPlain .elements S) (result : IsPlain (.type false) T) :
    IsPlain .trait (ident w ++ (inParens S ++ (op "->" ++ T)))
  | lifetimeBound {text : String} (spelled : IsLifetime text) :
    IsPlain (.bound false) [.lifetime text Extent.nowhere]
  | bound {S : List Token} (trait : IsPlain .trait S) : IsPlain (.bound true) S
  | optional {S : List Token} (trait : IsPlain .trait S) : IsPlain (.bound true) (op "?" ++ S)
  | bounds {plus t : Bool} {S : List Token} (last : IsPlain (.bound t) S) :
    IsPlain (.bounds plus t) S
  | moreBounds {t t' : Bool} {S T : List Token} (first : IsPlain (.bound t) S)
    (others : IsPlain (.bounds true t') T) : IsPlain (.bounds true (t || t')) (S ++ op "+" ++ T)
  | lifetime {text : String} (spelled : IsLifetime text) :
    IsPlain (.argument true) [.lifetime text Extent.nowhere]
  | literal {text : String} (number : IsNumber text) :
    IsPlain (.argument false) [.literal text Extent.nowhere]
  | argument {S : List Token} (type : IsPlain (.type true) S) : IsPlain (.argument false) S
  | binding {w : String} {S : List Token} (name : IsName w)
    (type : IsPlain (.type true) S) : IsPlain (.argument false) (ident w ++ (op "=" ++ S))
  | noArguments {l : Bool} : IsPlain (.arguments l) []
  | arguments {l l' : Bool} {S : List Token} (last : IsPlain (.argument l') S)
    (order : l' = true → l = true) : IsPlain (.arguments l) S
  | moreArguments {l l' : Bool} {S T : List Token} (first : IsPlain (.argument l') S)
    (order : l' = true → l = true) (others : IsPlain (.arguments l') T) :
    IsPlain (.arguments l) (S ++ op "," ++ T)

theorem IsPlain.name {plus : Bool} {w : String} (name : IsName w) :
    IsPlain (.type plus) (ident w) :=
  .pathType (.path (S := []) (T := []) (.inl name.2) (.word (.inr (.inl name.2)) name.1) .noSegments)

/-- Whether tokens are read as a part of a type that is kept. -/
def Part.Keeps : Part → List Token → Prop
  | type plus => KeepsType plus
  | elements => KeepsElements
  | segment => ReadsSegment
  | segments => ReadsFurther
  | path => KeepsPath
  | trait => KeepsTrait
  | bound t => KeepsBound t
  | bounds plus t => KeepsBounds plus t
  | argument l => ReadsArgument l
  | arguments l => ReadsArguments l

theorem IsPlain.keeps {p : Part} {S : List Token} (h : IsPlain p S) : p.Keeps S := by
  induction h with
  | never => exact keepsType_never
  | infer => exact keepsType_infer
  | reference life _ isMut _ target => exact target.reference life isMut
  | pointer word _ target => exact target.pointer word
  | slice _ element => exact element.slice
  | @array _ _ _ text _ element => exact element.array text
  | unit => exact keepsType_unit
  | paren _ inside => exact inside.paren
  | tuple _ _ first others => exact first.tuple others
  | pathType _ path => exact path.keepsType
  | dynamic _ bounds => exact bounds.dynamic
  | impl _ bounds => exact bounds.impl
  | noElements => exact keepsElements_nil
  | element _ last => exact last.keepsElements
  | moreElements _ _ first others => exact first.keepsElements_append others
  | word word _ => exact readsSegment_word word
  | generic word _ _ arguments => exact readsSegment_arguments word arguments
  | noSegments => exact readsFurther_nil
  | moreSegments _ _ first others => exact .cons first others
  | path head _ _ first others => exact keepsPath_segments head first others
  | rooted _ _ first others => exact keepsPath_rooted first others
  | trait _ path => exact path.keepsTrait
  | function name _ inputs => exact inputs.keepsTrait none nofun name.2
  | functionTo name _ _ inputs result =>
    exact inputs.keepsTrait (some _) (fun _ same => Option.some.inj same ▸ result) name.2
  | @lifetimeBound text _ => exact keepsBound_lifetime text
  | bound _ trait => exact trait.keepsBound
  | optional _ trait => exact trait.keepsBound_optional
  | bounds _ last => exact last.keepsBounds
  | moreBounds _ _ first others => exact first.keepsBounds_append others
  | @lifetime text _ => exact readsArgument_lifetime text
  | @literal text _ => exact readsArgument_literal text
  | argument _ type => exact type.readsArgument
  | binding name _ type => exact type.readsArgument_binding name.2
  | noArguments => exact readsArguments_nil _
  | arguments _ order last => exact last.readsArguments order
  | moreArguments _ order _ first others => exact first.readsArguments_append order others

/-- Plain parts of types are written so that their text is read again. -/
theorem IsPlain.areWritten {p : Part} {S : List Token} (h : IsPlain p S) : AreWritten S := by
  induction h with
  | never => exact areWritten_op (by decide)
  | infer => exact areWritten_ident (by decide)
  | reference life spelled isMut _ target =>
    have lifetimes : AreWritten (lifetimeTokens life) := by
      cases life with
      | none => trivial
      | some text => exact ⟨⟨spelled text rfl, nofun⟩, trivial⟩
    have mutable : AreWritten (mutTokens isMut) := by
      cases isMut with
      | false => trivial
      | true => exact areWritten_ident (by decide)
    exact (areWritten_op (by decide)).append (lifetimes.append (mutable.append target))
  | pointer word _ target =>
    have spelled : ∀ w ∈ ["const", "mut"], IsWord w.toList := by decide
    exact (areWritten_op (by decide)).append ((areWritten_ident (spelled _ word)).append target)
  | slice _ element => exact areWritten_inBrackets element
  | array _ number element =>
    exact areWritten_inBrackets (element.append ((areWritten_op (by decide)).append
      ⟨⟨number, nofun⟩, trivial⟩))
  | unit => exact areWritten_inParens areWritten_nil
  | paren _ inside => exact areWritten_inParens inside
  | tuple _ _ first others =>
    exact areWritten_inParens (first.append ((areWritten_op (by decide)).append others))
  | pathType _ path => exact path
  | dynamic _ bounds => exact (areWritten_ident (by decide)).append bounds
  | impl _ bounds => exact (areWritten_ident (by decide)).append bounds
  | noElements => trivial
  | element _ last => exact last
  | moreElements _ _ first others =>
    exact (first.append (areWritten_op (by decide))).append others
  | word _ spelled => exact areWritten_ident spelled
  | generic _ spelled _ arguments =>
    exact (areWritten_ident spelled).append ((areWritten_op (by decide)).append
      (arguments.append (areWritten_op (by decide))))
  | noSegments => trivial
  | moreSegments _ _ first others =>
    exact ((areWritten_op (by decide)).append first).append others
  | path _ _ _ first others => exact first.append others
  | rooted _ _ first others => exact ((areWritten_op (by decide)).append first).append others
  | trait _ path => exact path
  | function name _ inputs =>
    exact (areWritten_ident name.1).append ((areWritten_inParens inputs).append areWritten_nil)
  | functionTo name _ _ inputs result =>
    exact (areWritten_ident name.1).append ((areWritten_inParens inputs).append
      ((areWritten_op (by decide)).append result))
  | lifetimeBound spelled => exact ⟨⟨spelled, nofun⟩, trivial⟩
  | bound _ trait => exact trait
  | optional _ trait => exact (areWritten_op (by decide)).append trait
  | bounds _ last => exact last
  | moreBounds _ _ first others => exact (first.append (areWritten_op (by decide))).append others
  | lifetime spelled => exact ⟨⟨spelled, nofun⟩, trivial⟩
  | literal number => exact ⟨⟨number, nofun⟩, trivial⟩
  | argument _ type => exact type
  | binding name _ type =>
    exact (areWritten_ident name.1).append ((areWritten_op (by decide)).append type)
  | noArguments => trivial
  | arguments _ _ last => exact last
  | moreArguments _ _ _ first others =>
    exact (first.append (areWritten_op (by decide))).append others

variable {S ts : List Token}

namespace IsPlain

variable (h : IsPlain (.type true) S)
include h

theorem readTokens_type (spells : Respells ts S) : ∃ q, AreKept [q] S ∧
    readTokens (fun read => read (.type true)) ts = .ok ((), [q]) := by
  have keeps : KeepsType true S := h.keeps
  have enough : 8 * sizeList S + 1 ≤ depth ts := by
    rw [depth, spells.sizeList_eq]
    omega
  obtain ⟨_, ⟨q, rfl⟩, kept, run⟩ := keeps.named.run (c := { rest := ts }) enough spells
    (endsPlain_nil true) (List.append_nil ts).symm
  exact ⟨q, kept, runAll_eq_ok.mpr ⟨_, run, rfl, rfl, rfl⟩⟩

theorem isType (spells : Respells ts S) : IsType ts := by
  obtain ⟨q, -, read⟩ := h.readTokens_type spells
  exact isOk_iff.mpr ⟨_, read⟩

theorem readType_eq : ∃ q, readType (textList S) = .ok q ∧ Respells q.tokens S := by
  obtain ⟨ts, lexed, spells⟩ := tokens?_textList h.areWritten
  obtain ⟨q, kept, read⟩ := h.readTokens_type spells
  have same : written q = q := kept.written q (List.mem_singleton_self q) q.depth
  refine ⟨q, ?_, by simpa [Phrase.tokensList] using kept.spells⟩
  rw [readType, tokensOf, lexed]
  refine bind_eq_ok.mpr ⟨ts, rfl, bind_eq_ok.mpr ⟨_, read, ?_⟩⟩
  exact congrArg Except.ok same

end IsPlain

end FormulaBinding.Grammar
