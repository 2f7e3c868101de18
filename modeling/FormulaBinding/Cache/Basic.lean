import FormulaBinding.Digest
import FormulaBinding.Json.Decoding
import FormulaBinding.Json.Reader

/-! # Fingerprints and the unit cache

A unit depends only on the configuration and the candidates of its group. The digest of both is the
unit's fingerprint, under which the cache keeps it. -/
namespace FormulaBinding

/-- The version of the generator, which is a part of every fingerprint. -/
def generatorVersion : String := "0.3.0"

def fingerprintText (c : Configuration) (cs : List Candidate) : String :=
  (Json.array [c.toJson, .array (cs.map Candidate.toJson)]).text ++ generatorVersion

def fingerprint (c : Configuration) (cs : List Candidate) : String :=
  Digest.hex (fingerprintText c cs).toUTF8.toList

/-- Units by fingerprint, in increasing order of code points. -/
structure UnitCache where
  entries : List (String × UnitEntry) := []
  deriving DecidableEq, Repr, Inhabited

namespace UnitCache

def find? (c : UnitCache) (key : String) : Option UnitEntry := c.entries.lookup key

def keys (c : UnitCache) : List String := c.entries.map (·.1)

/-- Puts an entry into its place in increasing order. -/
def insertEntry (key : String) (e : UnitEntry) :
    List (String × UnitEntry) → List (String × UnitEntry)
  | [] => [(key, e)]
  | (k, f) :: rest =>
    if key < k then (key, e) :: (k, f) :: rest
    else if key = k then (key, e) :: rest
    else (k, f) :: insertEntry key e rest

def put (c : UnitCache) (key : String) (e : UnitEntry) : UnitCache :=
  ⟨insertEntry key e c.entries⟩

def insert (c : UnitCache) (e : UnitEntry) : UnitCache := c.put e.unit.fingerprint e

def prune (c : UnitCache) (live : List String) : UnitCache :=
  ⟨c.entries.filter (·.1 ∈ live)⟩

def size (c : UnitCache) : Nat := c.entries.length

def toJson (c : UnitCache) : Json :=
  .object [("entries", .object (c.entries.map fun (k, e) => (k, e.toJson)))]

/-- The entries of an object; of entries under one key the last one counts. -/
def ofFields? (fields : List (String × Json)) : Option UnitCache :=
  fields.foldlM (fun c (k, j) => (UnitEntry.ofJson? j).map (c.put k)) {}

def ofJson? (j : Json) : Option UnitCache := do
  match ← Json.record? ["entries"] j with
  | [(true, .object fields)] => ofFields? fields
  | _ => none

def text (c : UnitCache) : String := c.toJson.text

def ofBytes? (bytes : ByteArray) : Option UnitCache := (Json.ofBytes? bytes).bind ofJson?

/-- Why a cache cannot be loaded or saved. -/
inductive Error where
  | file (path : String) (cause : FileError)
  | corrupt
  deriving DecidableEq, Repr

def save (c : UnitCache) (d : Directory) (path : FilePath) : Except FileError Directory :=
  d.write path c.text.toUTF8

def load (d : Directory) (path : FilePath) (shown : String) : Except Error UnitCache :=
  match d.read path with
  | .error .notFound => .ok {}
  | .error cause => .error (.file shown cause)
  | .ok bytes =>
    match ofBytes? bytes with
    | some c => .ok c
    | none => .error .corrupt

end UnitCache
end FormulaBinding
