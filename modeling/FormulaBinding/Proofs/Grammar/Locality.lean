import FormulaBinding.Proofs.Grammar.Agreement

/-!
# Types in front of different ends

The rules of types do not look behind the closing angle bracket in front of which they stop: they do
the same whatever comes behind it. The rules are taken in the order of the grammar.
-/

namespace FormulaBinding.Grammar

open FormulaBinding.Parser

-- A rule has more steps than the search for instances looks at by default.
set_option synthInstance.maxSize 1000000000

/-- Whether two readers agree on texts and groups with fewer than `n` tokens. -/
class AgreeInside (n : ℕ) (read read' : Reader) : Prop where
  all : ∀ nonterminal, Agrees [] [] id false n (read nonterminal) (read' nonterminal)

/-- Whether two readers agree on types and bounds of fewer than `n` tokens in front of two ends. -/
class AgreeAhead (v w : List Token) (s : Surrounding → Surrounding) (n : ℕ)
    (read read' : Reader) : Prop where
  type : ∀ plus, Agrees v w s false n (read (.type plus)) (read' (.type plus))
  bound : ∀ captures conditional, Agrees v w s false n (read (.bound captures conditional))
    (read' (.bound captures conditional))

variable {v w : List Token} {s : Surrounding → Surrounding} {start : Bool} {n : ℕ} {read read' : Reader}

instance [h : AgreeInside n read read'] (nonterminal : Nonterminal) :
    Agrees [] [] id false n (read nonterminal) (read' nonterminal) := h.all nonterminal

instance [h : AgreeInside n read read'] : AgreeAhead [] [] id n read read' :=
  ⟨fun _ => h.all _, fun _ _ => h.all _⟩

instance [h : AgreeAhead v w s n read read'] (plus : Bool) :
    Agrees v w s false n (read (.type plus)) (read' (.type plus)) := h.type plus

instance [h : AgreeAhead v w s n read read'] (captures conditional : Bool) :
    Agrees v w s false n (read (.bound captures conditional))
      (read' (.bound captures conditional)) := h.bound captures conditional

/-- Bounds that may end where nothing is ahead need no test for it. -/
theorem atEnd_boundsUntil {stop : List Token → Bool} (none : stop [] = true)
    (captures conditional : Bool) :
    (do if !(← atEnd) then boundsUntil read stop captures conditional) =
      boundsUntil read stop captures conditional := by
  funext c
  rcases c with ⟨_ | _, inside, leftover, row⟩
  · have nothing : boundsUntil read stop captures conditional ⟨[], inside, leftover, row⟩ =
        ((if stop [] = true then pure false else do
          read (.bound captures conditional)
          mark? "+" : Parser Bool) >>= fun more => if more then pure () else pure ())
          ⟨[], inside, leftover, row⟩ := rfl
    rw [nothing, none]
    rfl
  · rfl

theorem parameterBounds_eq :
    (do
      if !(← atEnd) then
        boundsUntil read (fun ts => ts.isEmpty || (Ahead.mark "," ts || Ahead.mark ">" ts) ||
          Ahead.mark "=" ts) false true) =
    boundsUntil read (fun ts => ts.isEmpty || (Ahead.mark "," ts || Ahead.mark ">" ts) ||
      Ahead.mark "=" ts) false true := atEnd_boundsUntil rfl false true

variable [∀ nonterminal, Advances Remains (read nonterminal)] [AgreeInside n read read']
variable [∀ captures conditional, Consumes (read (.bound captures conditional))]
variable [AgreeAhead v w s n read read'] [ends : Stops v w]

instance : Agrees v w s start n (block read) (block read') := by dsimp only [block]; infer_instance

instance : Agrees [] [] id false n (attributeContent read) (attributeContent read') := by
  dsimp only [attributeContent]; infer_instance

instance : Consumes (outerAttribute read) := by dsimp only [outerAttribute]; infer_instance

instance : Agrees v w s start n (outerAttribute read) (outerAttribute read') := by
  dsimp only [outerAttribute]; infer_instance

instance : Agrees v w s start n (outerAttributes read) (outerAttributes read') := by
  dsimp only [outerAttributes]; infer_instance

instance : Agrees [] [] id start n (innerAttributes read) (innerAttributes read') := by
  dsimp only [innerAttributes]; infer_instance

instance : Agrees v w s start n (attributedBlock read) (attributedBlock read') := by
  dsimp only [attributedBlock]; infer_instance

instance : Agrees v w s start n (constValue read) (constValue read') := by
  dsimp only [constValue]; infer_instance

instance (stop : List Token → Bool) [Blind v w stop] (captures conditional : Bool)
    [Agrees v w s start n (read (.bound captures conditional))
      (read' (.bound captures conditional))] :
    Agrees v w s start n (boundsUntil read stop captures conditional)
      (boundsUntil read' stop captures conditional) := by
  dsimp only [boundsUntil]; infer_instance

omit [AgreeInside n read read'] in
/-- The bounds of an argument: at the end there would have to be another one. -/
theorem agrees_constraintBounds : Agrees v w s false n
    (boundsUntil read (fun ts => Ahead.mark "," ts || Ahead.mark ">" ts) false true)
    (boundsUntil read' (fun ts => Ahead.mark "," ts || Ahead.mark ">" ts) false true) := by
  dsimp only [boundsUntil]
  have body : Agrees v w s false n
      (do
        if ← peek (fun ts => Ahead.mark "," ts || Ahead.mark ">" ts) then return false
        read (.bound false true)
        mark? "+" : Parser Bool)
      (do
        if ← peek (fun ts => Ahead.mark "," ts || Ahead.mark ">" ts) then return false
        read' (.bound false true)
        mark? "+") :=
    agrees_peek_consumes rfl (fun t _ _ => by cases t <;> rfl) (fun _ _ _ _ _ => rfl)
      inferInstance inferInstance
  infer_instance

instance (k : Kind) (p q : Parser Unit) [Advances Remains p] [Agrees v w s start n p q] :
    Agrees v w s start n (extendBinding k p) (extendBinding k q) := by
  dsimp only [extendBinding]
  refine .get fun us c => ?_
  rcases c with ⟨_, _, _, _ | _⟩ <;> dsimp only <;> infer_instance

instance : Agrees v w s false n (genericArgument read) (genericArgument read') := by
  dsimp only [genericArgument]
  refine agrees_peek_peek2 (f := fun b => if b = true then _ else _)
    (g := fun b => if b = true then _ else _) _ _ fun b => .ite inferInstance ?_
  refine .bind (fun _ => inferInstance) inferInstance fun _ => ?_
  refine .bind (fun _ => inferInstance) inferInstance fun _ => .ite inferInstance ?_
  refine .bind (fun _ => inferInstance) inferInstance fun _ => .get fun us c => ?_
  have : Agrees v w s false n
      (boundsUntil read (fun ts => Ahead.mark "," ts || Ahead.mark ">" ts) false true)
      (boundsUntil read' (fun ts => Ahead.mark "," ts || Ahead.mark ">" ts) false true) :=
    agrees_constraintBounds
  dsimp only
  infer_instance

instance (first : Phrase → Bool) (p q : Parser Unit) [Advances Remains p]
    [Agrees v w s start n p q] : Agrees v w s start n (reorder first p) (reorder first q) := by
  dsimp only [reorder]; infer_instance

instance : Agrees v w s start n (genericArguments read) (genericArguments read') := by
  cases start <;> (dsimp only [genericArguments]; infer_instance)

instance (plus : Bool) : Agrees v w s start n (returnType read plus) (returnType read' plus) := by
  cases start <;> (dsimp only [returnType]; infer_instance)

instance : Agrees v w s start n (callArguments read) (callArguments read') := by
  dsimp only [callArguments]; infer_instance

instance (inExpr : Bool) : Blind v w (argumentsAhead inExpr) :=
  have := blind_behindColons (v := v) (w := w) (Ahead.mark "<")
  inferInstanceAs (Blind v w fun ts =>
    (!inExpr && Ahead.mark "<" ts && !Ahead.mark "<=" ts && !Ahead.mark "<<=" ts) ||
      (Ahead.mark "::" ts && Ahead.mark "<" (ts.drop 2)))

instance : Blind v w pathGoesOn := blind_behindColons fun ts => !Ahead.group .parenthesis ts

instance : Blind v w callAhead :=
  have := blind_behindColons (v := v) (w := w) (Ahead.group .parenthesis)
  inferInstanceAs (Blind v w fun ts => Ahead.group .parenthesis ts ||
    (Ahead.mark "::" ts && Ahead.group .parenthesis (ts.drop 2)))

instance (inExpr : Bool) : Consumes (segment read inExpr) := by
  dsimp only [segment]; infer_instance

instance (inExpr : Bool) : Agrees v w s start n (segment read inExpr) (segment read' inExpr) := by
  cases start <;> (dsimp only [segment]; infer_instance)

instance (inExpr : Bool) : Agrees v w s start n (pathParts read inExpr) (pathParts read' inExpr) := by
  dsimp only [pathParts]; infer_instance

instance (inExpr : Bool) : Agrees v w s start n (path read inExpr) (path read' inExpr) := by
  dsimp only [path]; infer_instance

instance (inExpr : Bool) : Agrees v w s start n (anyPath read inExpr) (anyPath read' inExpr) := by
  cases start <;> (dsimp only [anyPath]; infer_instance)

instance : Agrees v w s start n (callArgumentsInPath read) (callArgumentsInPath read') := by
  dsimp only [callArgumentsInPath]
  refine .get fun us c => ?_
  rcases c with ⟨_, _, _, _ | _⟩ <;> dsimp only <;> infer_instance

omit ends in
/-- Two tests may together be blind where the first one alone is not. -/
theorem agrees_atEnd_peek {p q p' q' : Parser Bool} {stop : List Token → Bool}
    [blind : Blind v w fun ts => ts.isEmpty || stop ts] (yes : Agrees v w s start n p q)
    (no : Agrees v w s start n p' q') :
    Agrees v w s start n (do if (← atEnd) || (← peek stop) then p else p')
      (do if (← atEnd) || (← peek stop) then q else q') where
  run {us us' c d a} fits run := by
    have run : (if ((us ++ v).isEmpty || stop (us ++ v)) = true then p else p') _ = _ := run
    have there := (yes.ite no).run fits run
    rw [blind.same us] at there
    exact there

instance (stop : List Token → Bool) [Blind v w fun ts => ts.isEmpty || stop ts] :
    Agrees v w s start n (lifetimeBounds stop) (lifetimeBounds stop) := by
  dsimp only [lifetimeBounds]
  have body : Agrees v w s start n
      (do
        if (← atEnd) || (← peek stop) then return false
        lifetime
        mark? "+" : Parser Bool)
      (do
        if (← atEnd) || (← peek stop) then return false
        lifetime
        mark? "+") := agrees_atEnd_peek inferInstance inferInstance
  infer_instance

instance (p q : Parser Unit) [Advances Remains p] [Agrees v w s false n p q] :
    Agrees v w s start n (withBounds p) (withBounds q) := by
  cases start <;> (dsimp only [withBounds]; infer_instance)

instance : Blind v w fun ts => ts.isEmpty || (Ahead.mark "," ts || Ahead.mark ">" ts) :=
  blind_of_first (fun t _ _ => by cases t <;> rfl) (fun _ _ _ _ _ => rfl) fun _ _ _ => rfl

instance : Blind v w fun ts => ts.isEmpty || (Ahead.mark "," ts || Ahead.mark ">" ts) ||
    Ahead.mark "=" ts :=
  blind_of_first (fun t _ _ => by cases t <;> rfl) (fun _ _ _ _ _ => rfl) fun _ _ _ => rfl

instance (declared : Bool) :
    Agrees v w s start n (genericParameter read declared) (genericParameter read' declared) := by
  cases start <;>
    (dsimp only [genericParameter]; rw [parameterBounds_eq, parameterBounds_eq]; infer_instance)

instance (declared : Bool) :
    Agrees v w s start n (genericParameters read declared) (genericParameters read' declared) := by
  dsimp only [genericParameters]; infer_instance

instance : Agrees v w s start n (forLifetimes read) (forLifetimes read') := by
  dsimp only [forLifetimes]; infer_instance

instance : Agrees v w s start n capture capture := by
  have further : Agrees v w s start n
      (do
        if ← peek (Ahead.mark ",") then mark "," else expected ["`,`", "`>`"]
        return true : Parser Bool)
      (do
        if ← peek (Ahead.mark ",") then mark "," else expected ["`,`", "`>`"]
        return true) :=
    agrees_peek_consumes rfl (fun t _ _ => by cases t <;> rfl) (fun _ _ _ _ _ => rfl)
      inferInstance inferInstance
  dsimp only [capture]
  infer_instance

instance (conditional : Bool) :
    Agrees v w s start n (traitBoundParts read conditional) (traitBoundParts read' conditional) := by
  dsimp only [traitBoundParts]; infer_instance

instance (captures conditional : Bool) :
    Agrees v w s start n (bound read captures conditional) (bound read' captures conditional) := by
  dsimp only [bound]; infer_instance

instance (conditional : Bool) : Blind v w (boundAhead conditional) :=
  inferInstanceAs (Blind v w fun ts => Ahead.anyName ts || Ahead.mark "::" ts ||
    Ahead.mark "?" ts || Ahead.lifetime ts || Ahead.group .parenthesis ts ||
    (conditional && (Ahead.group .bracket ts || Ahead.word "const" ts)))

section
variable [∀ captures conditional, Agrees v w s start n (read (.bound captures conditional))
  (read' (.bound captures conditional))]

instance (plus captures conditional : Bool) :
    Agrees v w s start n (bounds read plus captures conditional)
      (bounds read' plus captures conditional) := by
  dsimp only [bounds]; infer_instance

instance (intro intro' : Parser Unit) (plus captures conditional : Bool) (rule : String)
    [Advances Remains intro] [Agrees v w s start n intro intro'] :
    Agrees v w s start n (boundsWithTrait read intro plus captures conditional rule)
      (boundsWithTrait read' intro' plus captures conditional rule) := by
  dsimp only [boundsWithTrait]; infer_instance

instance (intro intro' : Parser Unit) (plus : Bool) [Advances Remains intro]
    [Agrees v w s start n intro intro'] :
    Agrees v w s start n (objectBounds read intro plus) (objectBounds read' intro' plus) := by
  dsimp only [objectBounds]; infer_instance

end

instance : Agrees v w s false n (furtherBounds read) (furtherBounds read') := by
  dsimp only [furtherBounds]; infer_instance

instance : Agrees v w s start n macroCall macroCall := by dsimp only [macroCall]; infer_instance

instance : Agrees v w s start n foreignInterface foreignInterface := by
  dsimp only [foreignInterface]; infer_instance

instance (first : Bool) :
    Agrees [] [] id false n (functionParameter read first) (functionParameter read' first) := by
  dsimp only [functionParameter]; infer_instance

instance : Agrees v w s start n (functionType read) (functionType read') := by
  dsimp only [functionType]; infer_instance

instance (p q : Parser Unit) [Advances Remains p] [Agrees v w s start n p q] :
    Agrees v w s start n (extendBounds p) (extendBounds q) := by
  dsimp only [extendBounds]
  refine .get fun us c => ?_
  dsimp only
  split <;> infer_instance

instance (plus : Bool) : Agrees v w s true n (parenType read plus) (parenType read' plus) := by
  dsimp only [parenType]
  refine .choose (blind_of_first (fun _ _ _ => rfl) (fun _ _ _ _ _ => rfl) fun _ _ _ => rfl)
    fun ts => ?_
  refine .ite inferInstance (.ite inferInstance (.ite inferInstance ?_))
  refine .bind_behind (fun x => .ite inferInstance (.bind inferInstance fun b => ?_)) inferInstance
    fun x => .ite inferInstance (.bind (fun b => ?_) inferInstance fun b => ?_)
  all_goals split <;> infer_instance

instance : Agrees v w s start n pathTypeOrBounds.extendMacro pathTypeOrBounds.extendMacro := by
  dsimp only [pathTypeOrBounds.extendMacro]
  refine .get fun us c => ?_
  dsimp only
  split <;> infer_instance

instance (inExpr : Bool) : Consumes (path read inExpr) := by
  dsimp only [path, pathParts]; infer_instance

instance (inExpr : Bool) : Consumes (anyPath read inExpr) := by
  dsimp only [anyPath]; infer_instance

instance (plus : Bool) (lifetimes : List Phrase) :
    Agrees v w s true n (pathTypeOrBounds read plus lifetimes)
      (pathTypeOrBounds read' plus lifetimes) := by
  dsimp only [pathTypeOrBounds]
  refine .bind_behind (fun _ => ?_) inferInstance fun _ => .get fun us c => ?_
  · repeat' first
      | refine .bind inferInstance fun _ => ?_
      | refine .ite ?_ ?_
      | infer_instance
      | split
  · dsimp only
    split
    · refine .ite inferInstance (.peek fun _ => .peek fun _ => .ite ?_ inferInstance)
      refine .get fun us c => ?_
      dsimp only
      split <;> infer_instance
    · infer_instance

instance : Blind v w builtinAhead :=
  blind_behindFirst (Ahead.word "builtin") (Ahead.mark "#") rfl fun _ _ _ => rfl

instance (k : Kind) : Agrees v w s start n (builtin k) (builtin k) := by
  have := picks_behind (Ahead.group .parenthesis) rfl (fun t _ _ => by cases t <;> rfl)
    ["parentheses"]
  dsimp only [builtin]
  infer_instance

instance : Blind v w functionAhead :=
  inferInstanceAs (Blind v w (Ahead.oneOf ["fn", "unsafe", "extern"]))

instance : Blind v w pathAhead :=
  inferInstanceAs (Blind v w fun ts => Ahead.name ts ||
    Ahead.oneOf ["super", "self", "Self", "crate"] ts || Ahead.mark "::" ts || Ahead.mark "<" ts)

/-- A star behind the word makes a type of objects one that is kept as it is written. -/
instance : Blind v w fun ts => Ahead.word "dyn" ts && Ahead.mark "*" (ts.drop 1) :=
  blind_behindFirst (Ahead.word "dyn") (Ahead.mark "*") rfl fun _ _ _ => rfl

instance (plus : Bool) [∀ captures conditional, Agrees v w s true n
      (read (.bound captures conditional)) (read' (.bound captures conditional))] :
    Agrees v w s true n (type read plus) (type read' plus) := by
  dsimp only [type]
  infer_instance

end FormulaBinding.Grammar
