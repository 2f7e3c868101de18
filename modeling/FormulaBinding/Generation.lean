import FormulaBinding.Cache.Basic
import FormulaBinding.Declaration.Source
import FormulaBinding.Member.Build

/-! # Generation

A pass finds the candidates among declarations, groups them by trait, and makes a unit of each
group. With a cache, units whose fingerprint is known are taken from it, and afterwards the cache
holds what was generated last. -/
namespace FormulaBinding

/-- The units and the diagnostics of a pass, both in the order of keys. -/
structure Output where
  units : List SourceUnit := []
  diagnostics : List Diagnostic := []
  deriving DecidableEq, Repr, Inhabited

def Output.hasErrors (o : Output) : Bool := o.diagnostics.any Diagnostic.isError

/-- An accepted configuration with its paths. -/
structure Generator where
  configuration : Configuration
  context : RenderContext

namespace Generator

def make (c : Configuration) : Except ConfigurationError Generator := do
  return ⟨c, ← c.accept⟩

/-- What became of a group: a unit, or only diagnostics. -/
inductive Result where
  | found (entry : UnitEntry)
  | fresh (entry : UnitEntry)
  | failed (diagnostics : List Diagnostic)
  deriving DecidableEq, Repr

namespace Result

def entry? : Result → Option UnitEntry
  | found e => some e
  | fresh e => some e
  | failed _ => none

def fresh? : Result → Option UnitEntry
  | fresh e => some e
  | _ => none

def diagnostics : Result → List Diagnostic
  | found e => e.diagnostics
  | fresh e => e.diagnostics
  | failed ds => ds

end Result

def render (g : Generator) (key : UnitKey) (cs : List Candidate) : Result :=
  let c := g.configuration
  let built := cs.map (Candidate.build c.enclosure c.policy)
  let diagnostics := built.flatMap BuiltMember.diagnostics
  match SourceUnit.emit g.context key (built.map BuiltMember.member) (fingerprint c cs) with
  | .ok e => .fresh { e with diagnostics := diagnostics ++ e.diagnostics }
  | .error e => .failed (diagnostics ++ [Diagnostic.emission key e])

/-- The unit of a group, from the cache if its fingerprint is known there. -/
def result (g : Generator) (cache : UnitCache) (key : UnitKey) (cs : List Candidate) : Result :=
  match cache.find? (fingerprint g.configuration cs) with
  | some e => .found e
  | none => g.render key cs

def candidates (g : Generator) (ds : List Declaration) : List Candidate :=
  Declaration.candidates g.configuration.marker ds

def results (g : Generator) (cache : UnitCache) (ds : List Declaration) : List Result :=
  (Candidate.groups (g.candidates ds)).map fun (key, cs) => g.result cache key cs

def outputOf (rs : List Result) : Output where
  units := (rs.filterMap Result.entry?).map UnitEntry.unit
  diagnostics := rs.flatMap Result.diagnostics

def emptyOutput (g : Generator) : Output :=
  { diagnostics := [Diagnostic.noCandidates g.configuration.marker.text] }

def generate (g : Generator) (ds : List Declaration) : Output :=
  if (g.candidates ds).isEmpty then g.emptyOutput else outputOf (g.results {} ds)

/-- A pass with a cache. The new units are added to the cache, and the units that are not in the
output are dropped from it; where nothing is eligible the cache stays as it is. -/
def generateCached (g : Generator) (cache : UnitCache) (ds : List Declaration) :
    Output × UnitCache :=
  if (g.candidates ds).isEmpty then (g.emptyOutput, cache)
  else
    let rs := g.results cache ds
    let output := outputOf rs
    let filled := (rs.filterMap Result.fresh?).foldl UnitCache.insert cache
    (output, filled.prune (output.units.map SourceUnit.fingerprint))

def generateSource (g : Generator) (text scope : String) : Except ParseError Output :=
  (Source.declarations text scope).map g.generate

end Generator

/-- A unit that was handed over to a directory: the path of its file, and whether the file had to be
written. -/
structure Delivery where
  path : FilePath
  rewritten : Bool
  deriving DecidableEq, Repr

/-- What writing units comes to: the directory afterwards, and the deliveries or why it ended. -/
structure Deliveries where
  directory : Directory
  outcome : Except FileError (List Delivery)

/-- Writes one unit into a directory on the path; a file with the same text is left alone. -/
def SourceUnit.deliver (u : SourceUnit) (d : Directory) (folder : FilePath) :
    Except FileError (Directory × Delivery) :=
  let path := folder.append (FilePath.ofText u.fileName)
  match d.readText path with
  | .ok text =>
    if text = u.source then .ok (d, ⟨path, false⟩)
    else (d.write path u.source.toUTF8).map (·, ⟨path, true⟩)
  | .error _ => (d.write path u.source.toUTF8).map (·, ⟨path, true⟩)

/-- Writes units one after the other until one of them fails. -/
def SourceUnit.deliverAll (folder : FilePath) : List SourceUnit → Directory → Deliveries
  | [], d => ⟨d, .ok []⟩
  | u :: us, d =>
    match u.deliver d folder with
    | .error e => ⟨d, .error e⟩
    | .ok (d, delivery) =>
      let rest := deliverAll folder us d
      ⟨rest.directory, rest.outcome.map (delivery :: ·)⟩

/-- Writes units into a folder, which is made where it is missing. -/
def SourceUnit.writeAll (us : List SourceUnit) (d : Directory) (folder : FilePath) : Deliveries :=
  match d.makeAll folder with
  | (d, .error e) => ⟨d, .error e⟩
  | (d, .ok ()) => deliverAll folder us d

end FormulaBinding
