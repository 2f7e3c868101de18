import FormulaBinding.Member.Body
import Mathlib.Logic.Function.Basic

/-!
# What a body does

A body is run over a runtime contract that is given by functions alone. A frame knows the parameters
and the locals by name. A parameter that was bound has moved and cannot be used again; an evaluator
can be bound only if it is mutable; a local never takes the name of a parameter; and a body ends
with the one statement that gives back a number. Each breach of these rules is a fault.
-/

namespace FormulaBinding.Body

/-- What generated code relies on: how an evaluator is made of a template, how a placeholder is
given a value, how evaluation comes to a result, and how a result becomes a number. -/
structure Contract (Evaluator Value Result Number : Type) where
  construct : String → Evaluator
  bind : Evaluator → String → Value → Evaluator
  evaluate : Evaluator → Result
  coerce : Result → Number
  nan : Number

/-- Why a body cannot be run. -/
inductive Fault where
  /-- Nothing has the name. -/
  | undeclared (name : String)
  /-- What had the name was moved. -/
  | moved (name : String)
  /-- What has the name is of another kind. -/
  | misused (name : String)
  /-- The evaluator is not mutable. -/
  | immutable (name : String)
  /-- A local takes the name of a parameter. -/
  | shadowed (name : String)
  /-- The body ends without a number. -/
  | unfinished
  /-- The body goes on after it gave back a number. -/
  | superfluous
  deriving DecidableEq, Repr

variable {E V R N : Type}

/-- What a name stands for. -/
inductive Content (E V R : Type) where
  | parameter (value : V)
  | moved
  | evaluator (e : E) (isMutable : Bool)
  | result (r : R)

def Content.isParameter : Content E V R → Bool
  | parameter _ => true
  | moved => true
  | _ => false

abbrev Frame (E V R : Type) := String → Option (Content E V R)

namespace Frame

def start (parameters : List Parameter) (arguments : String → V) : Frame E V R := fun name =>
  if name ∈ parameters.map Parameter.name then some (.parameter (arguments name)) else none

/-- A local of a name, which may stand for an earlier local but not for a parameter. -/
def declare (f : Frame E V R) (name : String) (content : Content E V R) :
    Except Fault (Frame E V R) :=
  if (f name).any Content.isParameter then .error (.shadowed name)
  else .ok (Function.update f name (some content))

def evaluator (f : Frame E V R) (name : String) : Except Fault (E × Bool) :=
  match f name with
  | some (.evaluator e isMutable) => .ok (e, isMutable)
  | some .moved => .error (.moved name)
  | some _ => .error (.misused name)
  | none => .error (.undeclared name)

def value (f : Frame E V R) (name : String) : Except Fault V :=
  match f name with
  | some (.parameter v) => .ok v
  | some .moved => .error (.moved name)
  | some _ => .error (.misused name)
  | none => .error (.undeclared name)

def result (f : Frame E V R) (name : String) : Except Fault R :=
  match f name with
  | some (.result r) => .ok r
  | some .moved => .error (.moved name)
  | some _ => .error (.misused name)
  | none => .error (.undeclared name)

def borrow (f : Frame E V R) (name : String) : Except Fault Unit :=
  match f name with
  | some .moved => .error (.moved name)
  | some _ => .ok ()
  | none => .error (.undeclared name)

end Frame

/-- How a body goes on: with a frame, or not at all since it gave back a number. -/
inductive Progress (E V R N : Type) where
  | ahead (f : Frame E V R)
  | done (number : N)

def exec (k : Contract E V R N) (f : Frame E V R) :
    Statement → Except Fault (Progress E V R N)
  | .declareEvaluator evaluator template isMutable => do
    return .ahead (← f.declare evaluator (.evaluator (k.construct template) isMutable))
  | .bindParameter evaluator placeholder parameter => do
    let (e, isMutable) ← f.evaluator evaluator
    if !isMutable then throw (.immutable evaluator)
    let v ← f.value parameter
    let rest : Frame E V R := Function.update f parameter (some .moved)
    return .ahead (Function.update rest evaluator (some (.evaluator (k.bind e placeholder v) true)))
  | .invoke evaluator result => do
    let (e, _) ← f.evaluator evaluator
    return .ahead (← f.declare result (.result (k.evaluate e)))
  | .giveBack result => do
    return .done (k.coerce (← f.result result))
  | .discard parameter => do
    f.borrow parameter
    return .ahead f
  | .noExpression => return .done k.nan

def run (k : Contract E V R N) (f : Frame E V R) : List Statement → Except Fault N
  | [] => .error .unfinished
  | s :: ss =>
    match exec k f s with
    | .error fault => .error fault
    | .ok (.ahead g) => run k g ss
    | .ok (.done number) => if ss.isEmpty then .ok number else .error .superfluous

variable {k : Contract E V R N} {f g : Frame E V R}

theorem run_of_ahead {s : Statement} (h : exec k f s = .ok (.ahead g)) (ss : List Statement) :
    run k f (s :: ss) = run k g ss := by
  rw [run, h]

theorem run_of_done {s : Statement} {number : N} (h : exec k f s = .ok (.done number)) :
    run k f [s] = .ok number := by
  rw [run, h]
  rfl

theorem exec_declareEvaluator {name : String} (h : f name = none) (template : String)
    (isMutable : Bool) :
    exec k f (.declareEvaluator name template isMutable) =
      .ok (.ahead
        (Function.update f name (some (.evaluator (k.construct template) isMutable)))) := by
  rw [exec, Frame.declare, h]
  rfl

theorem exec_bindParameter {evaluator parameter : String} {e : E} {v : V}
    (he : f evaluator = some (.evaluator e true)) (hp : f parameter = some (.parameter v))
    (placeholder : String) :
    exec k f (.bindParameter evaluator placeholder parameter) =
      .ok (.ahead (Function.update (Function.update f parameter (some .moved)) evaluator
        (some (.evaluator (k.bind e placeholder v) true)))) := by
  rw [exec, Frame.evaluator, Frame.value, he, hp]
  rfl

theorem exec_invoke {evaluator result : String} {e : E} {isMutable : Bool}
    (he : f evaluator = some (.evaluator e isMutable)) (hr : f result = none) :
    exec k f (.invoke evaluator result) =
      .ok (.ahead (Function.update f result (some (.result (k.evaluate e))))) := by
  simp only [exec, Frame.evaluator, Frame.declare, he, bind, Except.bind, hr]
  rfl

theorem exec_giveBack {result : String} {r : R} (h : f result = some (.result r)) :
    exec k f (.giveBack result) = .ok (.done (k.coerce r)) := by
  rw [exec, Frame.result, h]
  rfl

theorem exec_discard {parameter : String} {v : V} (h : f parameter = some (.parameter v)) :
    exec k f (.discard parameter) = .ok (.ahead f) := by
  rw [exec, Frame.borrow, h]
  rfl

/-- Discarding parameters that have not moved changes nothing. -/
theorem run_discards {parameters : List Parameter}
    (h : ∀ p ∈ parameters, ∃ v, f p.name = some (.parameter v)) (ss : List Statement) :
    run k f (parameters.map (fun p => Statement.discard p.name) ++ ss) = run k f ss := by
  induction parameters with
  | nil => rfl
  | cons p parameters ih =>
    obtain ⟨v, hv⟩ := h p List.mem_cons_self
    rw [List.map_cons, List.cons_append, run_of_ahead (exec_discard hv)]
    exact ih fun q hq => h q (List.mem_cons_of_mem p hq)

end FormulaBinding.Body
