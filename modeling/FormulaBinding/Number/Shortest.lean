/-! # The shortest numeral of a floating point number

A numeral denotes the nearest binary number with a significand of fifty-three bits. That number is
shown with the fewest decimal digits that denote it again, and of those with the nearest ones. -/
namespace FormulaBinding.Number

/-- A significand times a power of a base that the context gives. -/
structure Scaled where
  significand : Nat
  exponent : Int
  deriving DecidableEq, Repr, Inhabited

/-- The quotient nearest to a fraction; a tie goes to the even neighbour. -/
def roundDiv (num den : Nat) : Nat :=
  let q := num / den
  let twice := 2 * (num % den)
  if twice < den then q
  else if den < twice then q + 1
  else if q % 2 = 0 then q else q + 1

def scaleFraction (base : Nat) (num den : Nat) (e : Int) : Nat × Nat :=
  if 0 ≤ e then (num * Nat.pow base e.toNat, den) else (num, den * Nat.pow base (-e).toNat)

def leadingBit (num den : Nat) : Int :=
  let guess : Int := num.log2 - den.log2
  let (a, b) := scaleFraction 2 num den (-guess)
  if a < b then guess - 1 else guess

def leastSignificand : Nat := 0x10000000000000

/-- The smallest exponent of a binary number's last bit. -/
def leastExponent : Int := -1074

/-- The largest exponent of a binary number's last bit. -/
def greatestExponent : Int := 971

/-- The binary number nearest to a decimal one, or nothing if it is too large. -/
def toBinary? (d : Scaled) : Option Scaled :=
  if d.significand = 0 then some ⟨0, leastExponent⟩
  else if 400 < d.exponent then none
  else if d.exponent + (d.significand.log2 / 3 : Nat) < -400 then some ⟨0, leastExponent⟩
  else
    let (num, den) := scaleFraction 10 d.significand 1 d.exponent
    let e := max leastExponent (leadingBit num den - 52)
    let (a, b) := scaleFraction 2 num den (-e)
    let m := roundDiv a b
    let b : Scaled := if m = 2 * leastSignificand then ⟨leastSignificand, e + 1⟩ else ⟨m, e⟩
    if greatestExponent < b.exponent then none else some b

/-- Whether the decimal number `n` times ten to the `s` is nearest to a binary number. -/
def denotes (b : Scaled) (n : Nat) (s : Int) : Bool :=
  let closeBelow := b.significand == leastSignificand && decide (leastExponent < b.exponent)
  let (num, den) := scaleFraction 10 n 1 s
  let (x, y) := scaleFraction 2 num den (2 - b.exponent)
  let low := (4 * b.significand - if closeBelow then 1 else 2) * y
  let high := (4 * b.significand + 2) * y
  if b.significand % 2 = 0 then low ≤ x && x ≤ high else low < x && x < high

def digitCount (n : Nat) : Nat := (Nat.toDigits 10 n).length

/-- The numbers of a decimal grid on both sides of a binary number, the nearer one first. -/
def neighbours (b : Scaled) (s : Int) : List Nat :=
  let (num, den) := scaleFraction 2 b.significand 1 b.exponent
  let (x, y) := scaleFraction 10 num den (-s)
  let q := x / y
  let r := roundDiv x y
  if r = q then [q, q + 1] else [q + 1, q]

/-- Looks for the coarsest of several decimal grids that has a number denoting the binary one. -/
def search (b : Scaled) : Nat → Int → Scaled
  | 0, s => ⟨((neighbours b s).head?).getD 0, s⟩
  | n + 1, s =>
    match (neighbours b s).find? (denotes b · s) with
    | some m => ⟨m, s⟩
    | none => search b n (s - 1)

/-- A decimal number without the zeros at its end. -/
def dropZeros : Nat → Scaled → Scaled
  | 0, d => d
  | n + 1, d =>
    if d.significand ≠ 0 ∧ d.significand % 10 = 0 then
      dropZeros n ⟨d.significand / 10, d.exponent + 1⟩
    else d

/-- The shortest decimal number that denotes a binary one. -/
def shortest (b : Scaled) : Scaled :=
  if b.significand = 0 then ⟨0, 0⟩
  else
    let (num, den) := scaleFraction 2 b.significand 1 b.exponent
    let top : Int := digitCount num - digitCount den
    dropZeros 20 (search b 20 top)

/-- A decimal number in positional notation, with at least one digit behind the point. -/
def positional (d : Scaled) : List Char :=
  let digits := Nat.toDigits 10 d.significand
  if 0 ≤ d.exponent then digits ++ List.replicate d.exponent.toNat '0' ++ ".0".toList
  else
    let places := (-d.exponent).toNat
    let padded := List.replicate (places + 1 - digits.length) '0' ++ digits
    padded.take (padded.length - places) ++ '.' :: padded.drop (padded.length - places)

/-- A decimal number as in `positional`, but with an exponent where the leading digit stands more
than four places behind the point or sixteen before it. -/
def exponential (d : Scaled) : List Char :=
  let digits := Nat.toDigits 10 d.significand
  let lead : Int := digits.length + d.exponent
  if d.significand = 0 ∨ (-5 < lead ∧ lead ≤ 16) then positional d
  else
    let fraction := match digits with
      | [] => []
      | [c] => [c]
      | c :: cs => c :: '.' :: cs
    fraction ++ 'e' :: (toString (lead - 1)).toList

def ofDigits (cs : List Char) : Nat := cs.foldl (fun n c => 10 * n + (c.toNat - '0'.toNat)) 0

/-- The decimal number of an unsigned numeral: digits, perhaps a point with more of them, perhaps an
exponent. -/
def readDecimal (cs : List Char) : Scaled :=
  let whole := cs.takeWhile Char.isDigit
  let (fraction, rest) := match cs.dropWhile Char.isDigit with
    | '.' :: rest => (rest.takeWhile Char.isDigit, rest.dropWhile Char.isDigit)
    | rest => ([], rest)
  let exponent : Int := match rest with
    | _ :: '-' :: ds => -(ofDigits ds : Int)
    | _ :: '+' :: ds => ofDigits ds
    | _ :: ds => ofDigits ds
    | [] => 0
  ⟨ofDigits (whole ++ fraction), exponent - fraction.length⟩

end FormulaBinding.Number
