/-! # TOML documents

What a document holds, where its parts stand in the text, and how a fault in it is shown. Places are
counted in characters from the beginning of the text. -/
namespace FormulaBinding.Toml

/-- A part of a text, from its first character to the one behind its last. -/
structure Span where
  start : Nat
  stop : Nat
  deriving DecidableEq, Repr, Inhabited

def Span.between (offset : Nat) : Span := ⟨offset, offset⟩

/-- What is wrong with a part of a text. -/
structure Fault where
  span : Span
  complaint : String
  deriving DecidableEq, Repr, Inhabited

/-- How a table came to be: by the dots of a key or a header, by a header of its own, by the dots of
a key with a value, or between braces. -/
inductive Origin where
  | implied
  | header
  | dotted
  | inline
  deriving DecidableEq, Repr

/-- A value. A whole number may lack digits; numbers that are no whole numbers are kept as their
text. -/
inductive Value where
  | text (s : String)
  | integer (i? : Option Int)
  | float (text : String)
  | boolean (b : Bool)
  | time (text : String)
  | array (ofTables : Bool) (elements : List Value)
  | table (origin : Origin) (fields : List (String × Span × Span × Value))
  deriving Inhabited

/-- The fields of a table: names with the places of the name and the value. -/
abbrev Fields := List (String × Span × Span × Value)

/-- How many bytes some characters take. -/
def byteCount : List Char → Nat
  | [] => 0
  | c :: cs => c.utf8Size + byteCount cs

/-- The line, counted from zero, and the column of a place. The end of a text belongs to the line of
its last character. Columns count characters, but bytes in front of a character that takes more than
one of them. -/
def locate (text : List Char) (offset : Nat) : Nat × Nat :=
  let inside := min offset (text.length - 1)
  let before := text.take inside
  let lineBefore := before.reverse.takeWhile (· != '\n')
  let wide := offset = inside ∧ (text.drop inside).head?.any (1 < ·.utf8Size)
  (before.count '\n',
    (if wide then byteCount lineBefore else lineBefore.length) + (offset - inside))

def lines : List Char → List (List Char)
  | [] => [[]]
  | c :: cs =>
    if c = '\n' then [] :: lines cs
    else
      match lines cs with
      | [] => [[c]]
      | l :: ls => (c :: l) :: ls

/-- A fault in a text as it is shown: its place, the line it is in with carets under it, one for
each byte, and the complaint. -/
def Fault.report (text : List Char) (f : Fault) : String :=
  let (line, column) := locate text f.span.start
  let content := ((lines text)[line]?).getD []
  let number := toString (line + 1)
  let margin := String.ofList (List.replicate (number.length + 1) ' ') ++ "|"
  let wrong := (text.drop f.span.start).take (f.span.stop - f.span.start)
  let carets := max 1 (min (byteCount wrong) (byteCount content - column))
  String.intercalate "\n"
    [s!"TOML parse error at line {number}, column {column + 1}", margin,
      s!"{number} | {String.ofList content}",
      margin ++ String.ofList (List.replicate (column + 1) ' ' ++ List.replicate carets '^'),
      f.complaint, ""]

end FormulaBinding.Toml
