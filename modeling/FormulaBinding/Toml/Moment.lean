import FormulaBinding.Number.Shortest

/-! # Moments

A moment is a date, a time of the day, or both with a time between them and perhaps with a distance
from universal time behind them. Dates are those of the Gregorian calendar. -/
namespace FormulaBinding.Toml.Moment

/-- Why a text is no moment: the part that will not do and what was expected of it, as far as that
can be said. -/
structure Flaw where
  part? : Option String
  expected? : Option String
  deriving DecidableEq, Repr

def Flaw.message (f : Flaw) : String :=
  "invalid " ++ f.part?.getD "datetime" ++
    match f.expected? with
    | some expected => ", expected " ++ expected
    | none => ""

/-- A piece of a moment. -/
inductive Piece where
  | digits (cs : List Char)
  | dash
  | colon
  | dot
  /-- What stands between a date and a time. -/
  | middle
  /-- The sign of universal time. -/
  | universal
  | plus
  | strange
  deriving DecidableEq, Repr

def piece? : List Char → Option (Piece × List Char)
  | [] => none
  | c :: cs =>
    match c with
    | '-' => some (.dash, cs)
    | ':' => some (.colon, cs)
    | '.' => some (.dot, cs)
    | 'T' | 't' | ' ' => some (.middle, cs)
    | 'Z' | 'z' => some (.universal, cs)
    | '+' => some (.plus, cs)
    | _ =>
      if c.isDigit then
        some (.digits ((c :: cs).takeWhile Char.isDigit), (c :: cs).dropWhile Char.isDigit)
      else some (.strange, [])

abbrev Reader (α : Type) := StateT (List Char) (Except Flaw) α

namespace Reader

def fail {α : Type} (part? : Option String) (expected : String) : Reader α :=
  throw ⟨part?, some expected⟩

def take? : Reader (Option Piece) := do
  match piece? (← get) with
  | some (p, rest) =>
    set rest
    return some p
  | none => return none

def digits (part? : Option String) (expected : String) : Reader (List Char) := do
  match ← take? with
  | some (.digits cs) => return cs
  | _ => fail part? expected

def expect (p : Piece) (part expected : String) : Reader Unit := do
  if (← take?) ≠ some p then fail (some part) expected

def takeIf (p : Piece) : Reader Bool := do
  match piece? (← get) with
  | some (q, rest) =>
    if q = p then
      set rest
      return true
    else return false
  | none => return false

/-- The number that digits denote, which have to be so many. -/
def number (cs : List Char) (count : Nat) (part expected : String) : Reader Nat := do
  if cs.length ≠ count then fail (some part) expected
  return Number.ofDigits cs

end Reader

def daysOf (year month : Nat) : Nat :=
  let leap := year % 4 = 0 ∧ (year % 100 ≠ 0 ∨ year % 400 = 0)
  match month with
  | 2 => if leap then 29 else 28
  | 4 | 6 | 9 | 11 => 30
  | _ => 31

open Reader

def date (year : List Char) : Reader Unit := do
  let month ← digits "date" "month"
  expect .dash "date" "`-` (MM-DD)"
  let day ← digits "date" "day"
  let year ← number year 4 "date" "a four-digit year (YYYY)"
  let month ← number month 2 "date" "a two-digit month (MM)"
  let day ← number day 2 "date" "a two-digit day (DD)"
  if month < 1 ∨ 12 < month then fail "date" "month between 01 and 12"
  let last := daysOf year month
  if day < 1 ∨ last < day then fail "date" s!"day between 01 and {last}"

def time : Reader Unit := do
  let hour ← digits "time" "hour"
  expect .colon "time" "`:` (HH:MM)"
  let minute ← digits "time" "minute"
  let mut second? := none
  if ← takeIf .colon then
    second? := some (← digits "time" "second")
    if ← takeIf .dot then discard (digits "time" "nanosecond")
  let hour ← number hour 2 "time" "a two-digit hour (HH)"
  let minute ← number minute 2 "time" "a two-digit minute (MM)"
  let second ← match second? with
    | some cs => number cs 2 "time" "a two-digit second (SS)"
    | none => pure 0
  if 23 < hour then fail "time" "hour between 00 and 23"
  if 59 < minute then fail "time" "minute between 00 and 59"
  if 60 < second then fail "time" "second between 00 and 60"

/-- Takes a distance from universal time behind its sign. -/
def distance : Reader Unit := do
  let hours ← digits "offset" "hour"
  expect .colon "offset" "`:` (HH:MM)"
  let minutes ← digits "offset" "minute"
  let hours ← number hours 2 "offset" "a two-digit hour (HH)"
  let minutes ← number minutes 2 "offset" "a two-digit minute (MM)"
  if 23 < hours then fail "offset" "hours between 00 and 23"
  if 59 < minutes then fail "offset" "minutes between 00 and 59"

def afterDate : Reader Unit := do
  match ← take? with
  | none => pure ()
  | some .middle =>
    time
    match ← take? with
    | none | some .universal => pure ()
    | some .plus | some .dash => distance
    | some _ => fail "offset" "`Z`, +OFFSET, -OFFSET"
  | some _ => fail "date-time" "`T` between date and time"

def moment : Reader Unit := do
  let text ← get
  let first ← digits none "year or hour"
  match ← take? with
  | some .dash =>
    date first
    afterDate
  | some .colon =>
    set text
    time
  | _ => fail none "`-` (YYYY-MM) or `:` (HH:MM)"
  if !(← get).isEmpty then throw ⟨none, none⟩

def flaw? (cs : List Char) : Option Flaw :=
  match moment cs with
  | .ok _ => none
  | .error f => some f

end FormulaBinding.Toml.Moment
