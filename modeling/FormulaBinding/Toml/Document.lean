import FormulaBinding.Toml.Notation
import FormulaBinding.Toml.Scalar

/-! # Building a document

The statements of a text are put into one table. A name is given once: a second value for it, or a
second header for its table, is a fault at the later one. -/
namespace FormulaBinding.Toml

/-- The complaint about a name that is given twice. -/
def duplicateComplaint : String := "duplicate key"

def duplicate {α : Type} (place : Span) : Except Fault α := .error ⟨place, duplicateComplaint⟩

abbrev Name := String × Span

/-- Changes the value under a name, which gets a value if it has none. -/
def Fields.alter (name : Name) (valueSpan : Span) (change : Option Value → Except Fault Value) :
    Fields → Except Fault Fields
  | [] => (change none).map fun v => [(name.1, name.2, valueSpan, v)]
  | (n, place, span, v) :: fs =>
    if n = name.1 then (change (some v)).map fun v => (n, place, span, v) :: fs
    else (alter name valueSpan change fs).map ((n, place, span, v) :: ·)

def Value.kind : Value → String
  | text _ => "string"
  | integer _ => "integer"
  | float _ => "float"
  | boolean _ => "boolean"
  | time _ => "datetime"
  | array _ _ => "array"
  | table _ _ => "table"

/-- What is wrong with going on below a name that has a value of some kind. -/
def extension (kind : String) : String := s!"cannot extend value of type {kind} with a dotted key"

/-- Changes the fields of a value that is a table, or the last one of several, unless there is a
complaint about its origin. -/
def Value.within (place : Span) (complaint? : Origin → Option String)
    (change : Origin → Fields → Except Fault Fields) : Value → Except Fault Value
  | .table origin fields =>
    match complaint? origin with
    | none => (change origin fields).map (.table origin)
    | some complaint => .error ⟨place, complaint⟩
  | .array true elements =>
    match elements.getLast? with
    | some (.table origin fields) =>
      (change origin fields).map fun fields =>
        .array true (elements.dropLast ++ [.table origin fields])
    | _ => duplicate place
  | v => .error ⟨place, extension v.kind⟩

/-- Changes the fields of the table at the end of a path that starts in a table of some origin.
Tables that are not there come to be with the given origin; tables that are there are entered unless
there is a complaint about their origin. -/
def Fields.descend (made : Origin) (complaint? : Origin → Option String)
    (change : Origin → Fields → Except Fault Fields) :
    List Name → Origin → Fields → Except Fault Fields
  | [], origin, fs => change origin fs
  | name :: path, _, fs =>
    fs.alter name name.2 fun
      | none => (descend made complaint? change path made []).map (.table made)
      | some v => v.within name.2 complaint? (descend made complaint? change path)

/-- The complaint about a header that leads through a table. -/
def headerComplaint? (o : Origin) : Option String :=
  if o = .inline then some (extension "inline table") else none

/-- The complaint about the dots of a key with a value that lead through a table. Between braces
only dots may have made it. -/
def dotComplaint? (braces : Bool) (o : Origin) : Option String :=
  match o with
  | .dotted => none
  | .implied => none
  | .inline => some (if braces then duplicateComplaint else extension "inline table")
  | .header => some duplicateComplaint

def Fields.assign (name : Name) (span : Span) (v : Value) (fs : Fields) : Except Fault Fields :=
  fs.alter name span fun
    | none => .ok v
    | some _ => duplicate name.2

/-- Gives a value to the name at the end of a key. Dots do not add to a table that a header has
implied. -/
def Fields.assignAt (braces : Bool) (path : List Name) (span : Span) (v : Value) (fs : Fields) :
    Except Fault Fields :=
  match path.getLast? with
  | some name =>
    let put := fun origin fs =>
      if origin = .dotted then Fields.assign name span v fs else duplicate name.2
    fs.descend .dotted (dotComplaint? braces) put path.dropLast .dotted
  | none => .ok fs

def Fields.openTable (name : Name) (several : Bool) (span : Span) (fs : Fields) :
    Except Fault Fields :=
  fs.alter name span fun
    | none => .ok (if several then .array true [.table .header []] else .table .header [])
    | some (.table .implied fields) =>
      if several then duplicate name.2 else .ok (.table .header fields)
    | some (.array true elements) =>
      if several then .ok (.array true (elements ++ [.table .header []])) else duplicate name.2
    | some _ => duplicate name.2

def names (path : List Lexeme) : Except Fault (List Name) :=
  path.mapM fun l => l.keyName.map fun n => (n, l.span)

mutual

def Node.value : Node → Except Fault Value
  | .plain l => l.value
  | .array nodes _ => (elementValues nodes).map (.array false)
  | .table pairs _ => (pairFields [] pairs).map (.table .inline)

def elementValues : List Node → Except Fault (List Value)
  | [] => .ok []
  | n :: ns => do return (← n.value) :: (← elementValues ns)

/-- The fields of a table between braces, behind those that are there already. -/
def pairFields (fs : Fields) : List (List Lexeme × Node) → Except Fault Fields
  | [] => .ok fs
  | (path, n) :: ps => do
    let path ← names path
    let v ← n.value
    pairFields (← fs.assignAt true path n.span v) ps

end

/-- The fields of a document after more statements; the path of the open table is given. -/
def addStatements (opened : List Name) (fs : Fields) : List Statement → Except Fault Fields
  | [] => .ok fs
  | .pair path n :: ss => do
    let path ← names path
    let v ← n.value
    let put := fun _ fs => Fields.assignAt false path n.span v fs
    let fs ← fs.descend .implied (fun _ => none) put opened .header
    addStatements opened fs ss
  | .header several path span :: ss => do
    let path ← names path
    let fs ← match path.getLast? with
      | some name =>
        let enter := fun _ fs => Fields.openTable name several span fs
        fs.descend .implied headerComplaint? enter path.dropLast .header
      | none => .ok fs
    addStatements path fs ss

def read (text : List Char) : Except Fault Fields := do addStatements [] [] (← statements text)

end FormulaBinding.Toml
