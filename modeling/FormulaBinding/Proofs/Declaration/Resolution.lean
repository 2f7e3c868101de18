import FormulaBinding.Declaration.Source
import FormulaBinding.Proofs.Success
import Mathlib.Data.List.Forall2
import Mathlib.Data.List.Nodup

/-!
# Resolution of attribute paths

What a module's `use` declarations bind is listed tree by tree, as paths of segments: a `self` at
the end of a path means the path itself. The first segment of an attribute's path is replaced by the
path that it is bound to in the module in which the trait is written, and by no other module's. Only
`self` is not followed: a name that it binds alone is not replaced, and a name that renames it gets
a path that still ends in `self`. A declaration that has a path from the root inside a group is kept
as it is written and binds nothing.
-/

namespace FormulaBinding

/-! ## Identities and full paths -/

/-- The identity that a full path spells: the name behind the last double colon, and what stands in
front of it. -/
inductive Spells : String → String → String → Prop
  | alone {name : String} (single : ¬ [':', ':'] <:+: name.toList) : Spells name "" name
  | within {scope name : String} (last : ¬ [':', ':'] <:+: ':' :: name.toList) :
    Spells (scope ++ "::" ++ name) scope name

namespace Text

theorem splitLastColons?_eq_none {cs : List Char} (h : ¬ [':', ':'] <:+: cs) :
    splitLastColons? cs = none := by
  induction cs with
  | nil => rfl
  | cons c cs ih =>
    rw [List.infix_cons_iff, not_or] at h
    have here : dropStart? [':', ':'] (c :: cs) = none := by
      by_contra some
      obtain ⟨after, found⟩ := Option.ne_none_iff_exists'.mp some
      exact h.1 ⟨after, (dropStart?_eq_some_iff.mp found).symm⟩
    rw [splitLastColons?, ih h.2, here]
    rfl

theorem splitLastColons?_append {after : List Char} (last : ¬ [':', ':'] <:+: ':' :: after)
    (before : List Char) :
    splitLastColons? (before ++ ':' :: ':' :: after) = some (before, after) := by
  induction before with
  | nil =>
    rw [List.nil_append, splitLastColons?, splitLastColons?_eq_none last]
    rfl
  | cons c before ih => rw [List.cons_append, splitLastColons?, ih]

theorem exists_last_colons {cs : List Char} (h : [':', ':'] <:+: cs) :
    ∃ before after, cs = before ++ ':' :: ':' :: after ∧ ¬ [':', ':'] <:+: ':' :: after := by
  induction cs with
  | nil => simp at h
  | cons c cs ih =>
    by_cases later : [':', ':'] <:+: cs
    · obtain ⟨before, after, rfl, last⟩ := ih later
      exact ⟨c :: before, after, rfl, last⟩
    · obtain ⟨after, whole⟩ := (List.infix_cons_iff.mp h).resolve_right later
      obtain ⟨rfl, rfl⟩ := List.cons_eq_cons.mp whole
      exact ⟨[], after, rfl, later⟩

end Text

namespace Imports

theorem spells_splitPath (path : String) :
    Spells path (splitPath path).1 (splitPath path).2 := by
  by_cases h : [':', ':'] <:+: path.toList
  · obtain ⟨before, after, whole, last⟩ := Text.exists_last_colons h
    have written : path = String.ofList before ++ "::" ++ String.ofList after := by
      rw [← String.toList_inj, whole]
      simp
    rw [splitPath, whole, Text.splitLastColons?_append last]
    rw [written]
    exact .within (by simpa using last)
  · rw [splitPath, Text.splitLastColons?_eq_none h]
    exact .alone h

theorem splitPath_of_spells {path scope name : String} (h : Spells path scope name) :
    splitPath path = (scope, name) := by
  cases h with
  | alone single => rw [splitPath, Text.splitLastColons?_eq_none single]
  | within last =>
    have whole : (scope ++ "::" ++ name).toList = scope.toList ++ ':' :: ':' :: name.toList := by
      simp
    rw [splitPath, whole, Text.splitLastColons?_append last]
    simp

end Imports

/-! ## Names that trees of imported names bind -/

/-- The ends of a tree of imported names that bind a name. -/
inductive Leaf where
  /-- The name at the end of a path, or another one that is given to it. -/
  | name
  /-- `self`, which binds the last name of the path in front of it. -/
  | itself
  /-- `self` with another name, which binds that name to the path in front of it. -/
  | renamedItself
  deriving DecidableEq

/-- A name that is brought into scope, and the path that it is bound to. -/
structure BoundName where
  leaf : Leaf
  name : String
  path : List String
  deriving DecidableEq

namespace Phrase

mutual

/-- The names that a tree of imported names binds under a path. A star binds none. -/
def boundNames (path : List String) : Phrase → List BoundName
  | .node .useTree [.token (.name w _), _, _, tree] => boundNames (path ++ [w]) tree
  | .node .useName [.token (.name w _)] =>
    if w = "self" then (path.getLast?.map fun last => ⟨.itself, last, path⟩).toList
    else [⟨.name, w, path ++ [w]⟩]
  | .node .useRename [.token (.name w _), _, .token (.name local' _)] =>
    if w = "self" then [⟨.renamedItself, local', path⟩] else [⟨.name, local', path ++ [w]⟩]
  | .node .useGroup [.group _ trees _ _] => boundNamesAmong path trees
  | _ => []

def boundNamesAmong (path : List String) : List Phrase → List BoundName
  | [] => []
  | p :: ps => boundNames path p ++ boundNamesAmong path ps

end

theorem eq_node_of_is {k : Kind} {p : Phrase} (h : p.is k = true) :
    ∃ parts, p = .node k parts := by
  cases p with
  | token => cases h
  | group => cases h
  | node l parts =>
    have same : l = k := by simpa [is, kind?] using h
    exact ⟨parts, same ▸ rfl⟩

/-- The names that the `use` declarations directly in a module bind. -/
def boundNamesIn (items : List Phrase) : List BoundName :=
  items.flatMap fun item => if item.is .useItem then boundNamesAmong [] item.parts else []

end Phrase

def pathText (path : List String) : String := path.foldl Marker.joinPath ""

theorem pathText_concat (path : List String) (w : String) :
    pathText (path ++ [w]) = Marker.joinPath (pathText path) w := by
  rw [pathText, List.foldl_concat]
  rfl

theorem joinSegments_joinPath {start : String} (some : start ≠ "") (w : String)
    (rest : List String) :
    Text.joinSegments (Marker.joinPath start w :: rest) =
      Text.joinSegments (start :: w :: rest) := by
  rw [Marker.joinPath, if_neg some, ← String.toList_inj]
  cases rest <;> simp [Text.joinSegments, String.toList_intercalate]

theorem joinSegments_foldl {start : String} (some : start ≠ "") (path rest : List String) :
    Text.joinSegments (path.foldl Marker.joinPath start :: rest) =
      Text.joinSegments (start :: (path ++ rest)) := by
  induction path generalizing start with
  | nil => rfl
  | cons w path ih =>
    have longer : Marker.joinPath start w ≠ "" := by simp [Marker.joinPath, some]
    rw [List.foldl_cons, ih longer, joinSegments_joinPath some, List.cons_append]

/-- A path's text is made of its segments, if the first of them is not empty. -/
theorem joinSegments_pathText {first : String} (some : first ≠ "") (path rest : List String) :
    Text.joinSegments (pathText (first :: path) :: rest) =
      Text.joinSegments (first :: path ++ rest) := by
  have start : Marker.joinPath "" first = first := rfl
  rw [pathText, List.foldl_cons, start, joinSegments_foldl some, List.cons_append]

namespace BoundName

/-- The path text that is looked up for a bound name, if the name was put in. -/
def target? (b : BoundName) : Option String :=
  match b.leaf with
  | .name => some (pathText b.path)
  | .itself => none
  | .renamedItself => some (pathText (b.path ++ ["self"]))

def putIn (i : Imports) (b : BoundName) : Imports := b.target?.elim i (i.insert b.name)

end BoundName

namespace Imports

open Phrase BoundName

/-- Putting trees in means putting the names in that they bind. -/
theorem addTrees_pathText (path : List String) (ps : List Phrase) (i : Imports) :
    i.addTrees (pathText path) ps = (boundNamesAmong path ps).foldl putIn i := by
  -- By the recursion of the bindings, which tells `self` from other names where they are renamed.
  refine boundNamesAmong.induct
    (fun path p => ∀ i : Imports, i.addTree (pathText path) p = (boundNames path p).foldl putIn i)
    (fun path ps => ∀ i : Imports,
      i.addTrees (pathText path) ps = (boundNamesAmong path ps).foldl putIn i)
    ?useTree ?itself ?useName ?renamedItself ?useRename ?useGroup ?other ?nil ?cons path ps i
  case useTree =>
    intro path w _ _ _ tree ih i
    rw [addTree, boundNames, ← pathText_concat, ih]
  case itself =>
    intro path _ i
    rw [addTree, if_pos rfl, boundNames, if_pos rfl]
    cases path.getLast? <;> rfl
  case useName =>
    intro path w _ ordinary i
    rw [addTree, if_neg ordinary, boundNames, if_neg ordinary, ← pathText_concat]
    rfl
  case renamedItself =>
    intro path _ _ local' _ i
    rw [addTree, boundNames, if_pos rfl, ← pathText_concat]
    rfl
  case useRename =>
    intro path w _ _ local' _ ordinary i
    rw [addTree, boundNames, if_neg ordinary, ← pathText_concat]
    rfl
  case useGroup =>
    intro path _ trees _ _ ih i
    rw [addTree, boundNames, ih]
  case other =>
    intro p path tree name rename group i
    rw [addTree.eq_5 i (pathText path) p tree name rename group,
      boundNames.eq_5 path p tree name rename group]
    rfl
  case nil => exact fun _ _ => rfl
  case cons =>
    intro path p ps first others i
    rw [addTrees, first, others, boundNamesAmong, List.foldl_append]

theorem ofItems_eq (items : List Phrase) :
    ofItems items = (boundNamesIn items).foldl putIn {} := by
  have step (i : Imports) (item : Phrase) :
      (if item.is .useItem then i.addTrees "" item.parts else i) =
        (if item.is .useItem then boundNamesAmong [] item.parts else []).foldl putIn i := by
    split_ifs with h
    · exact addTrees_pathText [] item.parts i
    · rfl
  rw [ofItems, boundNamesIn, List.foldl_flatMap]
  exact congrArg (fun f => items.foldl f {}) (funext₂ step)

theorem find?_putIn_of_ne {b : BoundName} {name : String} (h : b.name ≠ name) (i : Imports) :
    (putIn i b).find? name = i.find? name := by
  rw [putIn]
  cases b.target? with
  | none => rfl
  | some path =>
    have other : (name == b.name) = false := beq_false_of_ne (Ne.symm h)
    rw [Option.elim_some, find?, insert, List.lookup_cons, other, find?]

theorem find?_putIn_self (i : Imports) (b : BoundName) :
    (putIn i b).find? b.name = b.target?.or (i.find? b.name) := by
  rw [putIn]
  cases b.target? with
  | none => rfl
  | some path => exact List.lookup_cons_self

variable {bs : List BoundName}

theorem find?_foldl_putIn_of_notMem {name : String} (h : name ∉ bs.map BoundName.name)
    (i : Imports) : (bs.foldl putIn i).find? name = i.find? name := by
  induction bs generalizing i with
  | nil => rfl
  | cons b bs ih =>
    rw [List.map_cons, List.mem_cons, not_or] at h
    rw [List.foldl_cons, ih h.2, find?_putIn_of_ne (Ne.symm h.1)]

theorem find?_foldl_putIn_of_once {b : BoundName} (mem : b ∈ bs)
    (once : ∀ c ∈ bs, c.name = b.name → c = b) (i : Imports) :
    (bs.foldl putIn i).find? b.name = b.target?.or (i.find? b.name) := by
  induction bs generalizing i with
  | nil => exact absurd mem List.not_mem_nil
  | cons c bs ih =>
    have later : ∀ d ∈ bs, d.name = b.name → d = b := fun d hd =>
      once d (List.mem_cons_of_mem c hd)
    rw [List.foldl_cons]
    -- Only the last binding of the name counts, and one that comes before it is the same.
    by_cases again : b ∈ bs
    · rw [ih again later]
      by_cases hc : c.name = b.name
      · rw [once c List.mem_cons_self hc, find?_putIn_self, ← Option.or_assoc, Option.or_self]
      · rw [find?_putIn_of_ne hc]
    · have free : b.name ∉ bs.map BoundName.name := by
        intro name
        obtain ⟨d, hd, same⟩ := List.mem_map.mp name
        exact again (later d hd same ▸ hd)
      obtain rfl := (List.mem_cons.mp mem).resolve_right again
      rw [find?_foldl_putIn_of_notMem free, find?_putIn_self]

end Imports

/-! ## Modules of a text -/

namespace Source

open Phrase

/-- The modules of a text, with their paths and what stands directly in them. -/
inductive IsModule (root : String) (items : List Phrase) : String → List Phrase → Prop
  | root : IsModule root items root items
  | nested {scope : String} {inner parts own : List Phrase} {delimiter : Delimiter}
      {opens closes : Extent} (outer : IsModule root items scope inner)
      (mem : .node .moduleItem parts ∈ inner) (body : .group delimiter own opens closes ∈ parts) :
    IsModule root items (scope ++ "::" ++ writtenName (.node .moduleItem parts)) own

variable {imports : Imports} {root scope : String} {items inner : List Phrase} {d : Declaration}

/-- The declarations of the traits and the foreign blocks of all modules, each with the imports of
the module that the trait or the block stands directly in. -/
inductive Stands (root : String) (items : List Phrase) (d : Declaration) : Prop
  | method {scope : String} {inner : List Phrase} {trait : Phrase}
      (within : IsModule root items scope inner) (mem : trait ∈ inner)
      (isTrait : trait.is .traitItem = true)
      (declared : d ∈ ofTrait (Imports.ofItems inner) scope trait)
  | foreign {scope : String} {inner : List Phrase} {block : Phrase}
      (within : IsModule root items scope inner) (mem : block ∈ inner)
      (isForeign : block.is .foreignItem = true)
      (declared : d ∈ ofForeign (Imports.ofItems inner) scope block)

theorem mem_ofItems {item : Phrase} (mem : item ∈ items) (h : d ∈ ofItem imports scope item) :
    d ∈ ofItems imports scope items := by
  induction items with
  | nil => exact absurd mem List.not_mem_nil
  | cons p ps ih =>
    rw [ofItems, List.mem_append]
    rcases List.mem_cons.mp mem with rfl | mem
    · exact .inl h
    · exact .inr (ih mem)

theorem mem_ofModuleParts {parts own : List Phrase} {delimiter : Delimiter}
    {opens closes : Extent} (body : .group delimiter own opens closes ∈ parts)
    (h : d ∈ ofItems (Imports.ofItems own) scope own) : d ∈ ofModuleParts scope parts := by
  induction parts with
  | nil => exact absurd body List.not_mem_nil
  | cons p ps ih =>
    rcases List.mem_cons.mp body with rfl | body
    · rw [ofModuleParts, List.mem_append]
      exact .inl h
    · have later := ih body
      cases p with
      | group => exact List.mem_append_right _ later
      | token => exact later
      | node => exact later

/-- The declarations of a module are declarations of the text. -/
theorem IsModule.mem_ofItems (h : IsModule root items scope inner)
    (hd : d ∈ ofItems (Imports.ofItems inner) scope inner) :
    d ∈ ofItems (Imports.ofItems items) root items := by
  induction h with
  | root => exact hd
  | nested _ mem body ih => exact ih (Source.mem_ofItems mem (mem_ofModuleParts body hd))

theorem Stands.mem_ofItems (h : Stands root items d) :
    d ∈ ofItems (Imports.ofItems items) root items := by
  cases h with
  | method within mem isTrait declared =>
    obtain ⟨parts, rfl⟩ := eq_node_of_is isTrait
    exact within.mem_ofItems (Source.mem_ofItems mem declared)
  | foreign within mem isForeign declared =>
    obtain ⟨parts, rfl⟩ := eq_node_of_is isForeign
    exact within.mem_ofItems (Source.mem_ofItems mem declared)

theorem stands_of_mem (h : d ∈ ofItems (Imports.ofItems items) root items) :
    Stands root items d := by
  -- By the recursion of the search. It is always in a module of the text, with the imports of this
  -- module; the groups of a module declaration are modules too.
  refine ofItems.induct
    (fun imports scope p => ∀ inner, IsModule root items scope inner →
      imports = Imports.ofItems inner → p ∈ inner → d ∈ ofItem imports scope p →
        Stands root items d)
    (fun scope parts => (∀ delimiter own opens closes,
        .group delimiter own opens closes ∈ parts → IsModule root items scope own) →
      d ∈ ofModuleParts scope parts → Stands root items d)
    (fun imports scope ps => ∀ inner, IsModule root items scope inner →
      imports = Imports.ofItems inner → ps ⊆ inner → d ∈ ofItems imports scope ps →
        Stands root items d)
    ?module ?trait ?foreign ?other ?noParts ?body ?part ?nil ?cons
    (Imports.ofItems items) root items items .root rfl (fun _ => id) h
  case module =>
    intro _ scope parts ih inner within _ mem declared
    exact ih (fun _ _ _ _ body => .nested within mem body) declared
  case trait =>
    rintro _ scope parts inner within rfl mem declared
    exact .method within mem rfl declared
  case foreign =>
    rintro _ scope parts inner within rfl mem declared
    exact .foreign within mem rfl declared
  case other =>
    intro p imports scope module trait foreign inner _ _ _ declared
    rw [ofItem.eq_4 imports scope p module trait foreign] at declared
    cases declared
  case noParts => exact fun _ _ => nofun
  case body =>
    intro scope delimiter own opens closes parts first others modules declared
    rw [ofModuleParts, List.mem_append] at declared
    rcases declared with declared | declared
    · exact first own (modules _ _ _ _ List.mem_cons_self) rfl (fun _ => id) declared
    · exact others (fun _ _ _ _ body => modules _ _ _ _ (List.mem_cons_of_mem _ body)) declared
  case part =>
    intro scope p parts other others modules declared
    rw [ofModuleParts.eq_3 scope p parts other] at declared
    exact others (fun _ _ _ _ body => modules _ _ _ _ (List.mem_cons_of_mem _ body)) declared
  case nil => exact fun _ _ _ _ _ _ => nofun
  case cons =>
    intro imports scope p ps first others inner within same sub declared
    rw [ofItems, List.mem_append] at declared
    rw [List.cons_subset] at sub
    rcases declared with declared | declared
    · exact first inner within same sub.1 declared
    · exact others inner within same sub.2 declared

/-- Whether the `use` declarations directly in a module bind a name at most once. -/
def BindsOnce (items : List Phrase) (name : String) : Prop :=
  ∀ b ∈ boundNamesIn items, ∀ c ∈ boundNamesIn items, b.name = name → c.name = name → b = c

theorem bindsOnce_of_nodup (h : ((boundNamesIn items).map BoundName.name).Nodup) (name : String) :
    BindsOnce items name := by
  intro b hb c hc hname cname
  exact List.inj_on_of_nodup_map h hb hc (hname.trans cname.symm)

/-- How an attribute whose path starts with a name is resolved among what a module binds. -/
structure Resolves (items : List Phrase) (first : String) (rest : List String)
    (a : Annotation) : Prop where
  /-- A name that is not bound stands for itself. -/
  unbound : first ∉ (boundNamesIn items).map BoundName.name →
    Spells (Text.joinSegments (first :: rest)) a.scope a.name
  /-- A name that is bound stands for the path that it is bound to. -/
  bound : ∀ path, ⟨.name, first, path⟩ ∈ boundNamesIn items →
    Spells (Text.joinSegments (pathText path :: rest)) a.scope a.name
  /-- A name that `self` brings into scope stands for itself. -/
  itself : ∀ path, ⟨.itself, first, path⟩ ∈ boundNamesIn items →
    Spells (Text.joinSegments (first :: rest)) a.scope a.name
  /-- A name that renames `self` stands for the path with `self` at its end. -/
  renamedItself : ∀ path, ⟨.renamedItself, first, path⟩ ∈ boundNamesIn items →
    Spells (Text.joinSegments (pathText (path ++ ["self"]) :: rest)) a.scope a.name

theorem find?_ofItems_of_mem {b : BoundName} (mem : b ∈ boundNamesIn items)
    (once : BindsOnce items b.name) : (Imports.ofItems items).find? b.name = b.target? := by
  rw [Imports.ofItems_eq,
    Imports.find?_foldl_putIn_of_once mem fun c hc same => once c hc b mem same rfl]
  exact Option.or_none

theorem find?_ofItems_of_notMem {name : String}
    (h : name ∉ (boundNamesIn items).map BoundName.name) :
    (Imports.ofItems items).find? name = none := by
  rw [Imports.ofItems_eq, Imports.find?_foldl_putIn_of_notMem h]
  rfl

theorem annotationOf_resolves {applied : Phrase} {first : String} {rest : List String}
    (written : attributePath applied = first :: rest) (once : BindsOnce items first) :
    Resolves items first rest (annotationOf (Imports.ofItems items) applied) := by
  have spelled {target : Option String}
      (found : (Imports.ofItems items).find? first = target) :
      Spells (Text.joinSegments (target.getD first :: rest))
        (annotationOf (Imports.ofItems items) applied).scope
        (annotationOf (Imports.ofItems items) applied).name := by
    have full : (Imports.ofItems items).fullPath (attributePath applied) =
        Text.joinSegments (target.getD first :: rest) := by
      rw [written, Imports.fullPath, found]
    rw [← full]
    exact Imports.spells_splitPath _
  constructor
  case unbound => exact fun free => spelled (find?_ofItems_of_notMem free)
  case bound => exact fun path mem => spelled (find?_ofItems_of_mem mem once)
  case itself => exact fun path mem => spelled (find?_ofItems_of_mem mem once)
  case renamedItself => exact fun path mem => spelled (find?_ofItems_of_mem mem once)

def functionName (p : Phrase) : String :=
  nameOf ((p.child? .signature).getD (.node .signature []))

/-- The declaration of a trait's method in a module: its attributes are resolved in order among what
the module binds. -/
structure IsResolved (scope : String) (inner : List Phrase) (trait method : Phrase)
    (d : Declaration) : Prop where
  scope_eq : d.scope = scope
  container_eq : d.container = writtenName trait
  name_eq : d.name = functionName method
  annotations : List.Forall₂ (fun applied a => ∀ first rest,
    attributePath applied = first :: rest → BindsOnce inner first → Resolves inner first rest a)
    (attributes method) d.annotations

/-- The methods of the traits that stand directly in modules. -/
structure IsMethod (root : String) (items : List Phrase) (scope : String) (inner : List Phrase)
    (trait method : Phrase) : Prop where
  within : IsModule root items scope inner
  mem : trait ∈ inner
  isTrait : trait.is .traitItem = true
  method_mem : method ∈ functions trait

theorem declaration_isResolved (scope : String) (inner : List Phrase) (trait method : Phrase)
    (modifiers : Modifiers) (plain : Bool) :
    IsResolved scope inner trait method
      (declaration (Imports.ofItems inner) scope (writtenName trait) modifiers plain method) := by
  refine ⟨rfl, rfl, rfl, ?_⟩
  have resolved : ∀ applied ∈ attributes method, ∀ first rest,
      attributePath applied = first :: rest → BindsOnce inner first →
        Resolves inner first rest (annotationOf (Imports.ofItems inner) applied) :=
    fun _ _ _ _ written once => annotationOf_resolves written once
  exact List.forall₂_map_right_iff.mpr (List.forall₂_same.mpr resolved)

/-- Each method of a trait is declared with its attributes in order, and each of these is resolved
among what the module binds that the trait stands directly in. Apart from foreign functions,
nothing else is declared. -/
theorem declarations_resolve {text : String} (root : String)
    (h : Grammar.readFile text = .ok items) :
    ∃ ds, declarations text root = .ok ds ∧
      (∀ scope inner trait method, IsMethod root items scope inner trait method →
        ∃ d ∈ ds, IsResolved scope inner trait method d) ∧
      ∀ d ∈ ds, d.modifiers.foreign = false → ∃ scope inner trait method,
        IsMethod root items scope inner trait method ∧ IsResolved scope inner trait method d := by
  refine ⟨_, bind_eq_ok.mpr ⟨items, h, rfl⟩, ?_, ?_⟩
  · intro scope inner trait method isMethod
    have declared : declaration (Imports.ofItems inner) scope (writtenName trait)
        ⟨visibility trait, true, false⟩
        ((trait.child? .generics).isNone && (trait.child? .whereClause).isNone) method ∈
          ofTrait (Imports.ofItems inner) scope trait := List.mem_map_of_mem isMethod.method_mem
    have stands := Stands.method isMethod.within isMethod.mem isMethod.isTrait declared
    exact ⟨_, stands.mem_ofItems, declaration_isResolved scope inner trait method _ _⟩
  · intro d hd own
    cases stands_of_mem hd with
    | method within mem isTrait declared =>
      obtain ⟨method, hm, rfl⟩ := List.mem_map.mp declared
      exact ⟨_, _, _, method, ⟨within, mem, isTrait, hm⟩,
        declaration_isResolved _ _ _ method _ _⟩
    | foreign within mem isForeign declared =>
      obtain ⟨f, -, rfl⟩ := List.mem_map.mp declared
      cases own

/-- A trait whose module binds the first segment of an attribute's path in a group of trees, beside
a module that binds it to another path. -/
def renamedInGroup : String :=
  "use a::\x7bb as c, d::\x7bself\x7d\x7d; mod m \x7b use z::c; \x7d " ++
    "pub trait T \x7b #[c::f(\"[x]\")] fn g(x: f64) -> f64; \x7d"

theorem declarations_resolve_of_renamedInGroup :
    ∃ ds, declarations renamedInGroup "crate" = .ok ds ∧
      ∃ d ∈ ds, d.scope = "crate" ∧ d.container = "T" ∧ d.name = "g" ∧
        d.annotations.map (fun a => (a.scope, a.name)) = [("a::b", "f")] := by
  have read : (Grammar.readFile renamedInGroup).toOption.map (fun items =>
      (boundNamesIn items, (items.find? (Phrase.is .traitItem)).map fun trait =>
        (functions trait).map fun method =>
          [writtenName trait, functionName method] :: (attributes method).map attributePath)) =
      some ([⟨.name, "c", ["a", "b"]⟩, ⟨.itself, "d", ["a", "d"]⟩],
        some [[["T", "g"], ["c", "f"]]]) := by decide +kernel
  cases h : Grammar.readFile renamedInGroup with
  | error e =>
    rw [h] at read
    cases read
  | ok items =>
    rw [h] at read
    obtain ⟨binds, traits⟩ := Prod.mk.inj (Option.some.inj read)
    obtain ⟨trait, found, methods⟩ := Option.map_eq_some_iff.mp traits
    obtain ⟨method, only, parts⟩ := List.map_eq_singleton_iff.mp methods
    obtain ⟨names, paths⟩ := List.cons_eq_cons.mp parts
    obtain ⟨container, name⟩ := List.cons_eq_cons.mp names
    obtain ⟨applied, single, path⟩ := List.map_eq_singleton_iff.mp paths
    obtain ⟨ds, declared, each, -⟩ := declarations_resolve "crate" h
    obtain ⟨d, hd, resolved⟩ := each "crate" items trait method
      ⟨.root, List.mem_of_find?_eq_some found, List.find?_some found, only ▸ List.mem_singleton_self method⟩
    have annotations := resolved.annotations
    rw [single] at annotations
    obtain ⟨a, none, resolves, nothing, whole⟩ := List.forall₂_cons_left_iff.mp annotations
    have once : BindsOnce items "c" := bindsOnce_of_nodup (by rw [binds]; decide) "c"
    have spelled := (resolves "c" ["f"] path once).bound ["a", "b"] (by rw [binds]; decide)
    rw [joinSegments_pathText (by decide)] at spelled
    have identity := Imports.splitPath_of_spells spelled
    refine ⟨ds, declared, d, hd, resolved.scope_eq, resolved.container_eq.trans container,
      resolved.name_eq.trans (List.head_eq_of_cons_eq name), ?_⟩
    rw [whole, List.forall₂_nil_left_iff.mp nothing, List.map_singleton, ← identity]
    decide

end Source

end FormulaBinding
