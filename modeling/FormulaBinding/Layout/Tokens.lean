import FormulaBinding.Layout.Document
import FormulaBinding.Phrase.Basic
import FormulaBinding.Token.Literal

/-! # Layout of tokens that are not read further

The arguments of attributes and of macro calls are token lists, spaced by what stands next to
what. -/
namespace FormulaBinding.Layout
open Doc

/-- What was written last in the arguments of an attribute. -/
inductive Last where
  | word
  | mark
  | finalComma
  deriving DecidableEq

def spaceAfterWord (last : Last) : List Doc := if last = .word then [space] else []

mutual

/-- A token in the arguments of an attribute; `final` tells whether it ends its group. -/
def argumentToken (last : Last) (final : Bool) : Token → List Doc × Last
  | .name t _ => (spaceAfterWord last ++ word t, .word)
  | .literal t _ => (spaceAfterWord last ++ word t, .word)
  | .lifetime t _ => (word t, .word)
  | .mark c _ _ =>
    let before := if last = .word ∧ c = '=' then word " " else []
    if c = ',' ∧ final then (before ++ [commaEnd 0], .finalComma)
    else
      let after := if c = '=' then word " " else if c = ',' then [space] else []
      (before ++ word c.toString ++ after, .mark)
  | .group .parenthesis body _ _ =>
    let (docs, last) := argumentTokens .mark body
    let docs := if last = .finalComma then docs else docs ++ [zeroBreak]
    (word "(" ++ cbox step (shiftLast (-step) (zeroBreak :: docs)) ++ word ")", .mark)
  | .group .brace body _ _ =>
    (word "\x7b" ++ (argumentTokens .mark body).1 ++ word "\x7d", .mark)
  | .group .bracket body _ _ => (word "[" ++ (argumentTokens .mark body).1 ++ word "]", .mark)

def argumentTokens (last : Last) : List Token → List Doc × Last
  | [] => ([], last)
  | t :: ts =>
    let (docs, last) := argumentToken last ts.isEmpty t
    let (rest, last) := argumentTokens last ts
    (docs ++ rest, last)

end

/-- What stands before a token in the arguments of a macro call. -/
inductive Before where
  | start
  | dollar
  | dollarName
  | dollarNameColon
  | dollarGroup
  | dollarGroupMark
  | pound
  | poundBang
  | dot
  | colon
  | colons
  | name
  | nameBang
  | group
  | other
  deriving DecidableEq

/-- Keywords, which are never written close to what follows. -/
def spacedWords : List String :=
  ["as", "async", "await", "box", "break", "const", "continue", "crate", "dyn", "else", "enum",
    "extern", "fn", "for", "if", "impl", "in", "let", "loop", "macro", "match", "mod", "move",
    "mut", "pub", "ref", "return", "static", "struct", "trait", "type", "unsafe", "use", "where",
    "while", "yield"]

/-- Whether a blank may stand in front of a token, and what the token is for the next one. Where the
pattern of a rule is written, a name after a dollar sign has a sort after a colon. -/
def spacing (inPattern : Bool) (before : Before) : Token → Bool × Before
  | .name t _ =>
    if before = .dollar then (false, if inPattern then .dollarName else .other)
    else if before = .dollarNameColon then (false, .other)
    else if before = .dollarGroup then (false, .dollarGroupMark)
    else if t ∈ spacedWords then (true, .other)
    else (before ≠ .dot ∧ before ≠ .colons, .name)
  | .lifetime t _ =>
    if before = .dollarGroup then (false, .dollarGroupMark)
    else (true, if String.ofList (t.toList.drop 1) ∈ spacedWords then .other else .name)
  | .literal t _ =>
    if before = .dollarGroup then (false, .dollarGroupMark)
    else (before ≠ .dot, if t.endsWith "." then .other else .name)
  | .mark c joined _ =>
    if before = .dollarName ∧ c = ':' ∧ joined = false then (false, .dollarNameColon)
    else if before = .dollarGroup ∧ joined = false ∧ (c = '+' ∨ c = '*' ∨ c = '?') then
      (false, .other)
    else if before = .dollarGroup then (false, if joined then .dollarGroup else .dollarGroupMark)
    else if before = .dollarGroupMark ∧ (c = '+' ∨ c = '*') then (false, .other)
    else if before = .pound ∧ c = '!' then (false, .poundBang)
    else if before = .name ∧ c = '!' ∧ joined = false then (false, .nameBang)
    else if before = .colon ∧ c = ':' then (false, .colons)
    else if c = ',' ∨ c = ';' then (false, .other)
    else if c = '.' ∧ !inPattern then (before ≠ .name ∧ before ≠ .group, .dot)
    else if c = ':' ∧ joined then (before ≠ .name, .colon)
    else if c = '$' then (true, .dollar)
    else if c = '#' then (true, .pound)
    else (true, .other)
  | .group d _ _ _ =>
    if before = .dollar ∧ d = .parenthesis then (false, .dollarGroup)
    else if (before = .pound ∨ before = .poundBang) ∧ d = .bracket then (false, .other)
    else if d = .brace then (true, .other)
    else if before = .name then (false, .group)
    else if before = .nameBang then (false, .other)
    else (true, .group)

def joinsNext : Token → Bool
  | .mark c joined _ => joined || c = '$'
  | _ => false

def isDot : Token → Bool
  | .mark '.' _ _ => true
  | _ => false

mutual

def macroToken (inPattern : Bool) : Token → List Doc
  | .name t _ => word t
  | .lifetime t _ => word t
  | .literal t _ => word t
  | .mark c _ _ => word c.toString
  | .group d body _ _ =>
    let inside := macroTokens inPattern .start true body
    let inside := if d = .brace ∧ !body.isEmpty then space :: (inside ++ [space]) else inside
    word d.opening.toString ++ inside ++ word d.closing.toString

def macroTokens (inPattern : Bool) (before : Before) (joined : Bool) : List Token → List Doc
  | [] => []
  | t :: ts =>
    let (spaced, next) := spacing inPattern before t
    let gap :=
      if joined then [] else if spaced then [space] else if isDot t then [zeroBreak] else []
    gap ++ macroToken inPattern t ++ macroTokens inPattern next (joinsNext t) ts

end

def macroGroup : Token → List Doc
  | .group d body _ _ =>
    let opening := if d = .brace then " \x7b" else d.opening.toString
    let edge := if d = .brace then lineEnd else zeroBreak
    let content :=
      if body.isEmpty then []
      else
        cbox step (shiftLast (-step)
          (edge :: (ibox 0 (macroTokens false .start true body) ++ [edge])))
    word opening ++ content ++ word d.closing.toString
  | _ => []

/-- What of a rule was written last. -/
inductive RulePart where
  | nothing
  | pattern
  | arrow
  | expansion
  deriving DecidableEq

/-- A token directly in the rules of a macro: the pattern of a rule, the arrow, the expansion, or
the mark after it. -/
def ruleToken (last : RulePart) : Token → List Doc × RulePart
  | .group d body _ _ =>
    let content (inPattern : Bool) (edge : Doc) : List Doc :=
      if body.isEmpty then []
      else
        cbox step (shiftLast (-step)
          (edge :: (ibox 0 (macroTokens inPattern .start true body) ++ [edge])))
    if last = .nothing then
      (word d.opening.toString ++ content true zeroBreak ++ word d.closing.toString, .pattern)
    else
      (word " \x7b" ++ [neverBreak] ++ content false lineEnd ++ word "\x7d", .expansion)
  | .mark ';' _ _ => (word ";" ++ [lineEnd], .nothing)
  | .mark '=' _ _ => (word " =", last)
  | t => (word (String.join (Token.wordsList [t])), .arrow)

/-- The rules of a macro in a row: the last one ends with a mark if it has an expansion. -/
def ruleTokens (last : RulePart) : List Token → List Doc
  | [] =>
    match last with
    | .nothing => []
    | .expansion => word ";" ++ [lineEnd]
    | _ => [lineEnd]
  | t :: ts =>
    let (docs, last) := ruleToken last t
    docs ++ ruleTokens last ts

def rulesDocs (body : List Token) : List Doc :=
  word " \x7b" ++ cbox step (shiftLast (-step) (lineEndIfMore :: ruleTokens .nothing body)) ++
    word "\x7d"

def dropEndSpaces (s : String) : String :=
  String.ofList (s.toList.reverse.dropWhile (· == ' ')).reverse

/-- A text whose lines, all but the last, end without blanks. -/
def dropInnerSpaces (s : String) : String :=
  let lines := s.splitOn "\n"
  String.intercalate "\n" (lines.dropLast.map dropEndSpaces ++ lines.drop (lines.length - 1))

def balancedComments : List Char → Nat → Bool
  | '/' :: '*' :: cs, depth => balancedComments cs (depth + 1)
  | '*' :: '/' :: cs, depth => depth != 0 && balancedComments cs (depth - 1)
  | _ :: cs, depth => balancedComments cs depth
  | [], depth => depth == 0

/-- Whether a text may stand in a block comment: a slash at its end would become part of the mark
behind it. -/
def fitsBlockComment (text : String) : Bool :=
  balancedComments text.toList 0 && !text.endsWith "/"

/-- A comment with the given openings for a line and for a block, if the text can be one. -/
def comment? (line block : String) (notLine notBlock : List Char) (text : String) :
    Option (List Doc) :=
  let starts (cs : List Char) : Bool := text.toList.head?.any (· ∈ cs)
  if '\n' ∉ text.toList ∧ !starts notLine then
    some (word line ++ word (dropEndSpaces text) ++ [lineEnd])
  else if fitsBlockComment text ∧ !starts notBlock then
    some (word block ++ word (dropInnerSpaces text) ++ word "*/" ++ [lineEnd])
  else none

end FormulaBinding.Layout
