import FormulaBinding.Grammar.Entry
import FormulaBinding.Text.Alphanumeric
import FormulaBinding.Text.Separator

/-! # Identifiers

Names are stored without the `r#` of a raw identifier. A stored name is written raw again where it
is a keyword. -/
namespace FormulaBinding.Identifier

/-- The keywords of the host language, reserved ones included. -/
def keywords : List String :=
  ["as", "break", "const", "continue", "crate", "else", "enum", "extern", "false", "fn", "for",
    "if", "impl", "in", "let", "loop", "match", "mod", "move", "mut", "pub", "ref", "return",
    "self", "Self", "static", "struct", "super", "trait", "true", "type", "unsafe", "use", "where",
    "while", "async", "await", "dyn", "abstract", "become", "box", "do", "final", "macro",
    "override", "priv", "typeof", "unsized", "virtual", "yield", "try", "gen"]

def isName (s : String) : Bool := (Grammar.readName s).isOk

/-- Whether a text is a plain identifier: not empty, no keyword, no lone underscore, of letters,
digits and underscores, and a name to the grammar. -/
def isPlain (s : String) : Bool :=
  match s.toList with
  | [] => false
  | first :: rest =>
    !keywords.contains s && s != "_" && (Text.isAlphabetic first || first == '_') &&
      (first :: rest).all (fun c => Text.isAlphanumeric c || c == '_') && isName s

def stored (s : String) : String :=
  match Text.dropStart? ['r', '#'] s.toList with
  | some rest => String.ofList rest
  | none => s

/-- The identifier token that a grammar phrase for a name consists of. -/
def tokenText (p : Phrase) : String := (p.word?).getD ""

/-- The identifier that a stored name is written as: itself where that is a name, and raw where only
that is one. -/
def written (name : String) : Except ParseError String :=
  match Grammar.readName name with
  | .ok p => .ok (tokenText p)
  | .error e =>
    if isPlain name then .error e
    else
      match Grammar.readName ("r#" ++ name) with
      | .ok p => .ok (tokenText p)
      | .error _ => .error e

end FormulaBinding.Identifier
