import FormulaBinding.Proofs.Declaration.Resolution
import FormulaBinding.Proofs.Grammar.Declarations

/-!
# The names of declarations

Whatever a source text is called, the methods of its traits and their parameters have names that are
stored names, and the modules of the text are names.
-/

namespace FormulaBinding

def Identifier.IsStored (name : String) : Prop := ∃ w, Text.IsName w ∧ name = stored w

def Source.modulePath (root : String) (modules : List String) : String :=
  modules.foldl (fun scope w => scope ++ "::" ++ w) root

/-- A declaration in a module below a root, whose names are stored names. -/
structure Declaration.IsNamed (root : String) (d : Declaration) : Prop where
  scope : ∃ modules, (∀ w ∈ modules, Grammar.IsModuleName w) ∧
    d.scope = Source.modulePath root modules
  container : Text.IsName d.container
  name : Identifier.IsStored d.name
  parameters : ∀ p ∈ d.parameters, Identifier.IsStored p.name ∨ p.name = "self"

namespace Source
open Grammar

variable {n : Nat}

theorem stored_self : Identifier.stored "self" = "self" := by decide +kernel

theorem isStored_of_isBound {w : String} (h : IsBound w) :
    Identifier.IsStored (Identifier.stored w) ∨ Identifier.stored w = "self" := by
  rcases h with name | rfl
  · exact .inl ⟨w, name, rfl⟩
  · exact .inr stored_self

/-- The word that a pattern binds, as it stands there, if the pattern is a name. -/
def boundWord? (p : Phrase) : Option String :=
  if !p.is .namePattern || p.hasWord "ref" || p.hasMark '@' then none
  else (p.parts.filter (!Phrase.isWord "mut" ·)).head?.bind Phrase.word?

theorem boundName?_eq (p : Phrase) : boundName? p = (boundWord? p).map Identifier.stored := by
  rw [boundName?, boundWord?]
  split_ifs <;> rfl

/-- The word that names a parameter, as it stands there, if its pattern is a name. -/
def parameterWord? (p : Phrase) : Option String :=
  match p.parts.filter (!Phrase.is .outerAttribute ·) with
  | pattern :: _ :: _ => boundWord? pattern
  | _ => none

theorem map_name_parameter? (p : Phrase) :
    (parameter? p).map Parameter.name = (parameterWord? p).map Identifier.stored := by
  rw [parameter?, parameterWord?]
  rcases p.parts.filter (!Phrase.is .outerAttribute ·) with _ | ⟨pattern, _ | ⟨mark, type⟩⟩
  · rfl
  · rfl
  · simp only [boundName?_eq, Option.map_map]
    rfl

theorem exists_token_of_isWord {q : Phrase} {v : String} (h : q.isWord v) : ∃ t, q = .token t := by
  cases q with
  | token t => exact ⟨t, rfl⟩
  | _ => cases h

/-- A name is what is left of a pattern without the word in front of it that makes it mutable. -/
theorem filter_not_mut {start : List Phrase} {v : String} {e : Extent}
    (muts : ∀ q ∈ start, q.isWord "mut") (other : v ≠ "mut") :
    (start ++ [Phrase.token (.name v e)]).filter (!Phrase.isWord "mut" ·) =
      [.token (.name v e)] := by
  have none : start.filter (!Phrase.isWord "mut" ·) = [] := by
    rw [List.filter_eq_nil_iff]
    exact fun q mem => by rw [muts q mem]; exact Bool.false_ne_true
  have kept : [Phrase.token (.name v e)].filter (!Phrase.isWord "mut" ·) =
      [.token (.name v e)] := by
    rw [List.filter_eq_self]
    intro q mem
    rw [List.mem_singleton.mp mem, Phrase.isWord, Phrase.word?]
    simpa using other
  rw [List.filter_append, none, kept, List.nil_append]

theorem isBound_of_boundWord? {p : Phrase} (h : IsPattern p) {w : String}
    (bound : boundWord? (writeTo n {} p) = some w) : IsBound w := by
  rw [boundWord?] at bound
  split_ifs at bound with refused
  simp only [Bool.or_eq_true, not_or, Bool.not_eq_true, Bool.not_eq_false'] at refused
  obtain ⟨⟨named, noRef⟩, noAt⟩ := refused
  rw [is_writeTo p (by decide) (by decide)] at named
  obtain ⟨start, v, e, others, rfl, modifiers, allowed, ends⟩ := h.name named
  have last : others = [] := by
    refine ends.resolve_right ?_
    rintro ⟨j, e', more, rfl⟩
    have mem : Phrase.token (.mark '@' j e') ∈
        (writeTo n {} (.node .namePattern
          (start ++ .token (.name v e) :: .token (.mark '@' j e') :: more))).parts :=
      (mem_parts_writeTo (by decide)).mpr ⟨_, by simp, writeTo_token _⟩
    rw [Phrase.hasMark, List.any_eq_false] at noAt
    exact noAt _ mem rfl
  subst last
  have tokens : ∀ q ∈ start ++ [.token (.name v e)], ∃ t, q = Phrase.token t := by
    intro q mem
    rcases List.mem_append.mp mem with mem | mem
    · exact (modifiers q mem).elim exists_token_of_isWord exists_token_of_isWord
    · exact ⟨_, List.mem_singleton.mp mem⟩
  rw [writeTo_of_tokens (by decide) tokens] at bound noRef
  rw [Phrase.hasWord, List.any_eq_false] at noRef
  have muts : ∀ q ∈ start, q.isWord "mut" := fun q mem =>
    (modifiers q mem).resolve_left (noRef q (List.mem_append_left _ mem))
  have other : v ≠ "mut" := by
    rintro rfl
    rcases allowed with name | same
    · exact name.2 (by decide)
    · exact absurd same (by decide)
  rw [Phrase.parts, filter_not_mut muts other] at bound
  cases bound
  exact allowed

theorem isBound_of_parameterWord? {q : Phrase} (h : IsInput q) {w : String}
    (is : (writeTo n {} q).is .parameter) (read : parameterWord? (writeTo n {} q) = some w) :
    IsBound w := by
  rw [is_writeTo q (by decide) (by decide)] at is
  obtain ⟨attributes, pattern, e, type, rfl, all, isPattern⟩ := h is
  have none : attributes.filter (!Phrase.is .outerAttribute ·) = [] := by
    rw [List.filter_eq_nil_iff]
    exact fun q mem => by rw [all q mem]; exact Bool.false_ne_true
  have filtered : (attributes ++ [pattern, .token (.mark ':' false e), type]).filter
      (!Phrase.is .outerAttribute ·) = pattern :: .token (.mark ':' false e) ::
        [type].filter (!Phrase.is .outerAttribute ·) := by
    rw [List.filter_append, none, List.nil_append,
      List.filter_cons_of_pos (by rw [isPattern.own]; rfl), List.filter_cons_of_pos rfl]
  have own : ∃ others, ((writeTo n {} (.node .parameter
      (attributes ++ [pattern, .token (.mark ':' false e), type]))).parts.filter
        (!Phrase.is .outerAttribute ·)) =
      writeTo (n - 1) {} pattern :: .token (.mark ':' false e) :: others := by
    refine ⟨([type].filter (!Phrase.is .outerAttribute ·)).map (writeTo (n - 1) {}), ?_⟩
    rw [filter_own_parts_writeTo (by decide), filtered, List.map_cons, List.map_cons,
      writeTo_token]
  obtain ⟨others, own⟩ := own
  rw [parameterWord?] at read
  simp only [own] at read
  exact isBound_of_boundWord? isPattern read

theorem exists_input {parts : List Phrase}
    (content : ∀ d ps o c, .group d ps o c ∈ parts → ∀ q ∈ ps, IsInput q) {q : Phrase}
    (mem : q ∈ inputs (writeTo n {} (.node .signature parts))) :
    ∃ m p, IsInput p ∧ q = writeTo m {} p := by
  rw [inputs, List.mem_filter] at mem
  cases found : (writeTo n {} (.node .signature parts)).groupParts? .parenthesis with
  | none =>
    rw [found] at mem
    exact absurd mem.1 List.not_mem_nil
  | some ps =>
    rw [found] at mem
    obtain ⟨o, c, written⟩ := mem_of_groupParts? found
    obtain ⟨m, qs, group, rfl⟩ := exists_group_of_mem_writeTo (by decide) written
    obtain ⟨p, inside, rfl⟩ := List.mem_map.mp mem.1
    exact ⟨m, p, content _ _ _ _ group p inside, rfl⟩

theorem Has.find? {k : Kind} {ψ : Phrase → Prop} {parts : List Phrase} (h : Has k ψ parts) :
    ∃ q, parts.find? (Phrase.is k) = some q ∧ ψ q := by
  cases found : parts.find? (Phrase.is k) with
  | none =>
    obtain ⟨q, mem, of_k⟩ := h.some
    exact absurd of_k (List.find?_eq_none.mp found q mem)
  | some q =>
    exact ⟨q, rfl, h.all q (List.mem_of_find?_eq_some found) (List.find?_some found)⟩

theorem itemName_writeTo {k : Kind} {allowed : String → Prop} {parts : List Phrase}
    (h : k ∉ operandKinds) (has : Has .itemName (IsItemName allowed) parts) :
    ∃ w e, allowed w ∧ (writeTo n {} (.node k parts)).child? .itemName =
      some (.node .itemName [.token (.name w e)]) := by
  obtain ⟨q, found, w, e, rfl, ok⟩ := Has.find? has
  refine ⟨w, e, ok, ?_⟩
  rw [child?_writeTo h (by decide) (by decide) (by decide), Phrase.child?, Phrase.parts, found,
    Option.map_some, writeTo_of_tokens (by decide) (by simp)]

theorem writtenName_writeTo {k : Kind} {allowed : String → Prop} {parts : List Phrase}
    (h : k ∉ operandKinds) (has : Has .itemName (IsItemName allowed) parts) :
    ∃ w, allowed w ∧ writtenName (writeTo n {} (.node k parts)) = w := by
  obtain ⟨w, e, ok, child⟩ := itemName_writeTo (n := n) h has
  refine ⟨w, ok, ?_⟩
  rw [writtenName, child]
  rfl

theorem find?_append_of_outer {k : Kind} (own : k ≠ .outerAttribute) {attributes : List Phrase}
    (outer : ∀ q ∈ attributes, q.is .outerAttribute) (ps : List Phrase) :
    (attributes ++ ps).find? (Phrase.is k) = ps.find? (Phrase.is k) := by
  have none : attributes.find? (Phrase.is k) = none := by
    rw [List.find?_eq_none]
    intro q mem of_k
    have both := (beq_iff_eq.mp of_k).symm.trans (beq_iff_eq.mp (outer q mem))
    exact own (Option.some.inj both)
  rw [List.find?_append, none, Option.none_or]

/-- The signature of a function stands there as it was read. -/
theorem exists_signature {f : Phrase} (h : IsFunction f) : ∃ signature,
    IsSignature signature ∧
      (writeTo n {} f).child? .signature = some (writeTo (n - 1) {} signature) := by
  obtain ⟨attributes, signature, body, rfl, outer, isSignature, -⟩ := h
  refine ⟨signature, isSignature, ?_⟩
  obtain ⟨parts, rfl, -⟩ := isSignature
  rw [child?_writeTo (by decide) (by decide) (by decide) (by decide), Phrase.child?, Phrase.parts,
    find?_append_of_outer (by decide) outer]
  rfl

def signatureOf (f : Phrase) : Phrase := (f.child? .signature).getD (.node .signature [])

/-- The identifier that names a function, as it stands there. -/
def functionWord (f : Phrase) : String := writtenName (signatureOf f)

/-- The identifiers that name the parameters of a function, as they stand there. -/
def parameterWords (f : Phrase) : List String :=
  ((inputs (signatureOf f)).filter (Phrase.is .parameter)).filterMap parameterWord?

/-- What names a function is a name, and what names a parameter is a name or `self`. -/
theorem words_writeTo {f : Phrase} (h : IsFunction f) : Text.IsName (functionWord (writeTo n {} f)) ∧
    ∀ w ∈ parameterWords (writeTo n {} f), IsBound w := by
  obtain ⟨_, ⟨parts, rfl, name, content⟩, child⟩ := exists_signature (n := n) h
  rw [functionWord, parameterWords, signatureOf, child, Option.getD_some]
  constructor
  · obtain ⟨w, isName, same⟩ := writtenName_writeTo (k := .signature) (n := n - 1) (by decide) name
    rwa [same]
  · intro w mem
    obtain ⟨q, mem, read⟩ := List.mem_filterMap.mp mem
    obtain ⟨mem, is⟩ := List.mem_filter.mp mem
    obtain ⟨m, p, isInput, rfl⟩ := exists_input content mem
    exact isBound_of_parameterWord? isInput is read

/-- A declaration keeps the identifiers of a function as they are stored. -/
theorem names_declaration (imports : Imports) (scope container : String) (modifiers : Modifiers)
    (plain : Bool) (f : Phrase) :
    (declaration imports scope container modifiers plain f).name =
        Identifier.stored (functionWord f) ∧
      (declaration imports scope container modifiers plain f).parameters.map Parameter.name =
        (parameterWords f).map Identifier.stored := by
  refine ⟨rfl, ?_⟩
  rw [declaration, parameterWords, signatureOf, List.map_filterMap, List.map_filterMap]
  simp only [map_name_parameter?]

theorem isNamed_declaration {f : Phrase} (h : IsFunction f) (imports : Imports)
    {root scope container : String} {modules : List String}
    (named : ∀ w ∈ modules, IsModuleName w) (path : scope = modulePath root modules)
    (trait : Text.IsName container) (modifiers : Modifiers) (plain : Bool) :
    (declaration imports scope container modifiers plain (writeTo n {} f)).IsNamed root := by
  obtain ⟨isName, bound⟩ := words_writeTo (n := n) h
  obtain ⟨name, parameters⟩ :=
    names_declaration imports scope container modifiers plain (writeTo n {} f)
  constructor
  case scope => exact ⟨modules, named, path⟩
  case container => exact trait
  case name => exact ⟨_, isName, name⟩
  case parameters =>
    intro x mem
    have stored := List.mem_map_of_mem (f := Parameter.name) mem
    rw [parameters] at stored
    obtain ⟨w, mem, same⟩ := List.mem_map.mp stored
    rw [← same]
    exact isStored_of_isBound (bound w mem)

def IsWrittenItem (q : Phrase) : Prop := ∃ n p, IsItem p ∧ q = writeTo n {} p

theorem modulePath_concat (root : String) (modules : List String) (w : String) :
    modulePath root (modules ++ [w]) = modulePath root modules ++ "::" ++ w := by
  rw [modulePath, List.foldl_append]
  rfl

/-- What stands in a module is an item as what stands in the text, and the path of the module is one
of names. -/
theorem IsModule.isNamed {root scope : String} {items inner : List Phrase}
    (h : IsModule root items scope inner) (all : ∀ q ∈ items, IsWrittenItem q) :
    (∃ modules, (∀ w ∈ modules, IsModuleName w) ∧ scope = modulePath root modules) ∧
      ∀ q ∈ inner, IsWrittenItem q := by
  induction h with
  | root => exact ⟨⟨[], nofun, rfl⟩, all⟩
  | @nested scope inner parts own _ _ _ _ mem body ih =>
    obtain ⟨⟨modules, named, rfl⟩, each⟩ := ih
    obtain ⟨n, p, isItem, same⟩ := each _ mem
    have is : p.is .moduleItem := by
      rw [← is_writeTo p (by decide) (by decide), ← same]
      rfl
    cases isItem with
    | module name content =>
      obtain ⟨w, ok, spelled⟩ := writtenName_writeTo (k := .moduleItem) (n := n) (by decide) name
      refine ⟨⟨modules ++ [w], ?_, ?_⟩, ?_⟩
      · intro v hv
        rcases List.mem_append.mp hv with hv | hv
        · exact named v hv
        · rw [List.mem_singleton.mp hv]
          exact ok
      · rw [modulePath_concat, same, spelled]
      · intro q hq
        have body' : .group _ own _ _ ∈ (Phrase.node .moduleItem parts).parts := body
        rw [same] at body'
        obtain ⟨m, qs, group, rfl⟩ := exists_group_of_mem_writeTo (by decide) body'
        obtain ⟨r, inside, rfl⟩ := List.mem_map.mp hq
        exact ⟨m, r, content _ _ _ _ group r inside, rfl⟩
    | trait => cases is
    | other notModule => exact absurd is (by rw [notModule]; exact Bool.false_ne_true)

theorem areProper_of_tokensOf {text : String} {ts : List Token} (h : tokensOf text = .ok ts) :
    Token.AreProper ts := by
  rw [tokensOf] at h
  split at h
  · rename_i cut
    cases h
    exact Lexer.areProper_of_tokens? cut
  · cases h

theorem isWrittenItem_of_readFile {text : String} {items : List Phrase}
    (h : readFile text = .ok items) : ∀ q ∈ items, IsWrittenItem q := by
  obtain ⟨ts, lexed, h⟩ := bind_eq_ok.mp h
  obtain ⟨row, rfl, each⟩ := isItem_of_readFileTokens (areProper_of_tokensOf lexed) h
  intro q mem
  obtain ⟨p, inside, rfl⟩ := List.mem_map.mp mem
  exact ⟨_, p, each p inside, rfl⟩

theorem exists_traitMember {parts : List Phrase}
    (content : ∀ d ps o c, .group d ps o c ∈ parts → ∀ q ∈ ps, IsTraitMember q) {f : Phrase}
    (mem : f ∈ functions (writeTo n {} (.node .traitItem parts))) :
    ∃ m p, IsFunction p ∧ f = writeTo m {} p := by
  rw [functions, List.mem_filter] at mem
  obtain ⟨mem, isFunction⟩ := mem
  cases found : (writeTo n {} (.node .traitItem parts)).groupParts? .brace with
  | none =>
    rw [found] at mem
    exact absurd mem List.not_mem_nil
  | some ps =>
    rw [found] at mem
    obtain ⟨o, c, written⟩ := mem_of_groupParts? found
    obtain ⟨m, qs, group, rfl⟩ := exists_group_of_mem_writeTo (by decide) written
    obtain ⟨p, inside, rfl⟩ := List.mem_map.mp mem
    rw [is_writeTo p (by decide) (by decide)] at isFunction
    exact ⟨m, p, content _ _ _ _ group p inside isFunction, rfl⟩

/-- A method of a text is written as it was read, in a trait with a name and a module with a path of
names. -/
theorem IsMethod.isWritten {text root scope : String} {items inner : List Phrase} {trait f : Phrase}
    (read : readFile text = .ok items) (h : IsMethod root items scope inner trait f) :
    (∃ modules, (∀ w ∈ modules, IsModuleName w) ∧ scope = modulePath root modules) ∧
      Text.IsName (writtenName trait) ∧ ∃ n p, IsFunction p ∧ f = writeTo n {} p := by
  obtain ⟨within, inside, isTrait, function⟩ := h
  obtain ⟨path, each⟩ := within.isNamed (isWrittenItem_of_readFile read)
  obtain ⟨n, p, isItem, rfl⟩ := each _ inside
  rw [is_writeTo p (by decide) (by decide)] at isTrait
  cases isItem with
  | module => cases isTrait
  | trait name content =>
    obtain ⟨w, ok, spelled⟩ := writtenName_writeTo (k := .traitItem) (n := n) (by decide) name
    exact ⟨path, by rwa [spelled], exists_traitMember content function⟩
  | other _ notTrait => exact absurd isTrait (by rw [notTrait]; exact Bool.false_ne_true)

/-- The declarations of a text have names, foreign ones apart. -/
theorem isNamed_of_declarations {text root : String} {ds : List Declaration}
    (h : declarations text root = .ok ds) {d : Declaration} (mem : d ∈ ds)
    (own : d.modifiers.foreign = false) : d.IsNamed root := by
  obtain ⟨items, read, h⟩ := bind_eq_ok.mp h
  cases h
  cases stands_of_mem mem with
  | method within inside isTrait declared =>
    obtain ⟨f, function, rfl⟩ := List.mem_map.mp declared
    obtain ⟨⟨modules, named, path⟩, trait, m, p, isFunction, rfl⟩ :=
      IsMethod.isWritten read ⟨within, inside, isTrait, function⟩
    exact isNamed_declaration isFunction _ named path trait _ _
  | foreign _ _ _ declared =>
    obtain ⟨f, -, rfl⟩ := List.mem_map.mp declared
    cases own

end Source
end FormulaBinding
