import FormulaBinding.Json.Basic
import FormulaBinding.Text.Glyph
import FormulaBinding.Token.Literal

/-! # Reading JSON

A reader goes over glyphs and returns a value and what follows it. A string is read even if it
stands for no text, since it may be in a place that does not matter. -/
namespace FormulaBinding.Json

def dropBlank (gs : List Glyph) : List Glyph :=
  gs.dropWhile fun g => g == some ' ' || g == some '\n' || g == some '\t' || g == some '\r'

/-- The value of four hexadecimal digits, and what follows them. -/
def fourDigits? : List Glyph → Option (Nat × List Glyph)
  | some a :: some b :: some c :: some d :: rest =>
    match Literal.hexValue? a, Literal.hexValue? b, Literal.hexValue? c, Literal.hexValue? d with
    | some a, some b, some c, some d => some (((a * 16 + b) * 16 + c) * 16 + d, rest)
    | _, _, _, _ => none
  | _ => none

def isHigh (n : Nat) : Bool := 0xd800 ≤ n && n < 0xdc00

def isLow (n : Nat) : Bool := 0xdc00 ≤ n && n < 0xe000

/-- The second unit of a pair in an escape of its own, and what follows it. -/
def lowEscape? : List Glyph → Option (Nat × List Glyph)
  | some '\\' :: some 'u' :: rest => (fourDigits? rest).filter fun (n, _) => isLow n
  | _ => none

/-- What a `\u` escape after its `u` stands for: one unit or a pair of them is a character, and half
of a pair is none. -/
def codeEscape? (gs : List Glyph) : Option (Glyph × List Glyph) :=
  match fourDigits? gs with
  | none => none
  | some (unit, rest) =>
    if isHigh unit then
      match lowEscape? rest with
      | some (low, rest) =>
        some (some (Char.ofNat (0x10000 + (unit - 0xd800) * 0x400 + (low - 0xdc00))), rest)
      | none => some (none, rest)
    else if isLow unit then some (none, rest)
    else some (some (Char.ofNat unit), rest)

def readEscape? : List Glyph → Option (Glyph × List Glyph)
  | some '"' :: rest => some (some '"', rest)
  | some '\\' :: rest => some (some '\\', rest)
  | some '/' :: rest => some (some '/', rest)
  | some 'b' :: rest => some (some '\x08', rest)
  | some 'f' :: rest => some (some '\x0c', rest)
  | some 'n' :: rest => some (some '\n', rest)
  | some 'r' :: rest => some (some '\r', rest)
  | some 't' :: rest => some (some '\t', rest)
  | some 'u' :: rest => codeEscape? rest
  | _ => none

/-- Reads a string after its opening quote; the fuel is used up by its glyphs. -/
def readString? : Nat → List Glyph → Option (List Glyph × List Glyph)
  | 0, _ => none
  | _ + 1, [] => none
  | n + 1, none :: gs => (readString? n gs).map fun (s, rest) => (none :: s, rest)
  | n + 1, some c :: gs =>
    if c = '"' then some ([], gs)
    else if c = '\\' then
      match readEscape? gs with
      | some (g, rest) => (readString? n rest).map fun (s, rest) => (g :: s, rest)
      | none => none
    else if c.toNat < 32 then none
    else (readString? n gs).map fun (s, rest) => (some c :: s, rest)

def ofGlyphs (gs : List Glyph) : Json := (Glyph.text? gs).elim .garbled .string

/-- The value of an object, given its keys as they stand. -/
def ofFields (fs : List (List Glyph × Json)) : Json :=
  (fs.mapM fun f => (Glyph.text? f.1).map (·, f.2)).elim .garbled .object

def isDigit (g : Glyph) : Bool := g.any Char.isDigit

def readDigits? (gs : List Glyph) : Option (List Glyph × List Glyph) :=
  match gs.takeWhile isDigit with
  | [] => none
  | ds => some (ds, gs.dropWhile isDigit)

def readExponent? : List Glyph → Option (List Glyph × List Glyph)
  | e :: gs =>
    if e = some 'e' ∨ e = some 'E' then
      match gs with
      | s :: rest =>
        if s = some '+' ∨ s = some '-' then
          (readDigits? rest).map fun (ds, rest) => (e :: s :: ds, rest)
        else (readDigits? gs).map fun (ds, rest) => (e :: ds, rest)
      | [] => none
    else some ([], e :: gs)
  | [] => some ([], [])

/-- Reads a number: no superfluous zeros, digits on both sides of a point. -/
def readNumber? (gs : List Glyph) : Option (List Glyph × List Glyph) := do
  let (sign, gs) := match gs with
    | some '-' :: rest => ([some '-'], rest)
    | gs => ([], gs)
  let (whole, gs) ← match gs with
    | some '0' :: rest => if rest.head?.any isDigit then none else some ([some '0'], rest)
    | gs => readDigits? gs
  let (fraction, gs) ← match gs with
    | some '.' :: rest => (readDigits? rest).map fun (ds, rest) => (some '.' :: ds, rest)
    | gs => some ([], gs)
  let (exponent, gs) ← readExponent? gs
  return (sign ++ whole ++ fraction ++ exponent, gs)

mutual

def readValue? : Nat → List Glyph → Option (Json × List Glyph)
  | 0, _ => none
  | n + 1, gs =>
    match dropBlank gs with
    | some 'n' :: some 'u' :: some 'l' :: some 'l' :: rest => some (.null, rest)
    | some 't' :: some 'r' :: some 'u' :: some 'e' :: rest => some (.bool true, rest)
    | some 'f' :: some 'a' :: some 'l' :: some 's' :: some 'e' :: rest => some (.bool false, rest)
    | some '"' :: rest =>
      (readString? (rest.length + 1) rest).map fun (s, rest) => (ofGlyphs s, rest)
    | some '[' :: rest =>
      match dropBlank rest with
      | some ']' :: rest => some (.array [], rest)
      | rest => (readElements? n rest).map fun (js, rest) => (.array js, rest)
    | some '{' :: rest =>
      match dropBlank rest with
      | some '}' :: rest => some (.object [], rest)
      | rest => (readFields? n rest).map fun (fs, rest) => (ofFields fs, rest)
    | rest => (readNumber? rest).bind fun (t, rest) => (Glyph.text? t).map (.number ·, rest)

/-- Reads one or more elements and the bracket after them. -/
def readElements? : Nat → List Glyph → Option (List Json × List Glyph)
  | 0, _ => none
  | n + 1, gs =>
    match readValue? n gs with
    | none => none
    | some (j, rest) =>
      match dropBlank rest with
      | some ',' :: rest => (readElements? n rest).map fun (js, rest) => (j :: js, rest)
      | some ']' :: rest => some ([j], rest)
      | _ => none

/-- Reads one or more fields and the brace after them. -/
def readFields? : Nat → List Glyph → Option (List (List Glyph × Json) × List Glyph)
  | 0, _ => none
  | n + 1, gs =>
    match dropBlank gs with
    | some '"' :: rest =>
      match readString? (rest.length + 1) rest with
      | none => none
      | some (k, rest) =>
        match dropBlank rest with
        | some ':' :: rest =>
          match readValue? n rest with
          | none => none
          | some (j, rest) =>
            match dropBlank rest with
            | some ',' :: rest => (readFields? n rest).map fun (fs, rest) => ((k, j) :: fs, rest)
            | some '}' :: rest => some ([(k, j)], rest)
            | _ => none
        | _ => none
    | _ => none

end

/-- Reads a value with nothing but blanks around it. -/
def read? (gs : List Glyph) : Option Json :=
  match readValue? (2 * gs.length + 2) gs with
  | some (j, rest) => if (dropBlank rest).isEmpty then some j else none
  | none => none

def ofText? (s : String) : Option Json := read? (Glyph.ofText s)

/-- The value of bytes, which need not be a text where it does not matter. -/
def ofBytes? (bytes : ByteArray) : Option Json := read? (Glyph.ofBytes bytes)

end FormulaBinding.Json
