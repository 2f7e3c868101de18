/-! # Documents

A document is text with possible line breaks, nested in boxes. A box that fits into what is left of
the line is written without breaking any of its breaks. Otherwise a consistent box breaks all of
them, and an inconsistent one only those after which the text up to the next break does not fit.

What has to fit is measured in bytes, from a box or a break up to the next break of the same or an
outer box. -/
namespace FormulaBinding.Layout

def lineWidth : Int := 89

/-- The least space after a break, however far the line is indented. -/
def leastSpace : Int := 60

def step : Int := 4

/-- A possible end of a line: the blanks written in its place, how far the next line is moved, what
is written in front of the line end and at the start of the next line, what is written after the
blanks if the line goes on, and whether it is never broken, or written as nothing at the end of its
box. -/
structure Break where
  blanks : Nat := 0
  shift : Int := 0
  before : String := ""
  after : String := ""
  unbroken : String := ""
  never : Bool := false
  dropsAtEnd : Bool := false
  deriving DecidableEq, Repr, Inhabited

/-- A document; `wide` is no text at all, but fits on no line. -/
inductive Doc where
  | text (s : String)
  | wide
  | brk (b : Break)
  | box (consistent : Bool) (indent : Int) (body : List Doc)
  deriving Inhabited

namespace Doc

def word (s : String) : List Doc := [.text s]

def zeroBreak : Doc := .brk {}

def space : Doc := .brk { blanks := 1 }

def spaceIfMore : Doc := .brk { blanks := 1, dropsAtEnd := true }

/-- The blanks of a break that fits on no line. -/
def endless : Nat := 0xffff

def lineEnd : Doc := .brk { blanks := endless }

/-- A break that is always broken, but dropped at the end of its box. -/
def lineEndIfMore : Doc := .brk { blanks := endless, dropsAtEnd := true }

def neverBreak : Doc := .brk { never := true }

/-- A break that ends a list with a comma when it is broken. -/
def commaEnd (blanks : Nat) : Doc := .brk { blanks, before := "," }

def shiftLast (by' : Int) (ds : List Doc) : List Doc :=
  match ds.reverse with
  | .brk b :: before => (Doc.brk { b with shift := b.shift + by' } :: before).reverse
  | _ => ds

/-- A box; one with nothing but a break is empty, and some breaks are dropped at its end, where they
still end what has to fit in front of them. -/
def enclose (consistent : Bool) (indent : Int) (body : List Doc) : List Doc :=
  match body with
  | [.brk _] => []
  | _ =>
    match body.reverse with
    | .brk b :: before =>
      if b.dropsAtEnd then [.box consistent indent (neverBreak :: before).reverse]
      else [.box consistent indent body]
    | _ => [.box consistent indent body]

def cbox (indent : Int) (body : List Doc) : List Doc := enclose true indent body

def ibox (indent : Int) (body : List Doc) : List Doc := enclose false indent body

/-- Elements separated by commas, the last one followed by the given break. -/
def commas (last : Doc) : List (List Doc) → List Doc
  | [] => []
  | [d] => d ++ [last]
  | d :: ds => d ++ [.text ",", space] ++ commas last ds

/-- The content of a comma list box: a break, the elements, and a comma if the list is broken. -/
def listBody (elements : List (List Doc)) : List Doc :=
  shiftLast (-step) (zeroBreak :: commas (commaEnd 0) elements)

def joined (separator : String) : List (List Doc) → List Doc
  | [] => []
  | [d] => d
  | d :: ds => d ++ [.text separator] ++ joined separator ds

mutual

/-- The width of a document without broken breaks. -/
def width : Doc → Nat
  | text s => s.utf8ByteSize
  | wide => endless
  | brk b => b.blanks
  | box _ _ body => widthAll body

def widthAll : List Doc → Nat
  | [] => 0
  | d :: ds => width d + widthAll ds

end

/-- A consistent box that is broken if it is wider than a limit, even if it fits into the line. -/
def cboxAtMost (limit : Nat) (indent : Int) (body : List Doc) : List Doc :=
  if widthAll body ≤ limit then cbox indent body else cbox indent (body ++ [wide])

/-- The width up to the next break of this box or, behind its last one, `after`. -/
def reach (after : Nat) : List Doc → Nat
  | [] => after
  | .brk _ :: _ => 0
  | d :: ds => width d + reach after ds

/-- How the breaks of a box are treated. -/
inductive Frame where
  | flat
  | broken (consistent : Bool)
  deriving DecidableEq, Repr

/-- A page being written: its pieces, last one first, the space left on the line, the indentation,
and the blanks to be written before the next text. -/
structure Page where
  pieces : List String := []
  space : Int := lineWidth
  indent : Int := 0
  pending : Nat := 0

namespace Page

def settle (p : Page) : Page :=
  { p with pieces := String.ofList (List.replicate p.pending ' ') :: p.pieces, pending := 0 }

def write (p : Page) (s : String) : Page :=
  let p := p.settle
  { p with pieces := s :: p.pieces, space := p.space - s.utf8ByteSize }

def blank (p : Page) (n : Nat) : Page :=
  { p with pending := p.pending + n, space := p.space - n }

def stay (p : Page) (b : Break) : Page :=
  let p := p.blank b.blanks
  if b.unbroken = "" then p
  else { p with pieces := b.unbroken :: p.pieces, space := p.space - b.unbroken.utf8ByteSize }

def endLine (p : Page) (b : Break) : Page :=
  let p := if b.before = "" then p else { p.settle with pieces := b.before :: p.settle.pieces }
  let indent := p.indent + b.shift
  let p := { p with
    pieces := "\n" :: p.pieces
    pending := indent.toNat
    space := max (lineWidth - indent) leastSpace }
  if b.after = "" then p else p.write b.after

def render (p : Page) : String := String.join p.pieces.reverse

end Page

def breakFits (frame : Frame) (b : Break) (size : Nat) (p : Page) : Bool :=
  b.never || match frame with
    | .flat => true
    | .broken true => false
    | .broken false => decide ((size : Int) ≤ p.space)

mutual

/-- Writes a document that is followed by text of width `after` up to the next break. -/
def print (frame : Frame) (after : Nat) (p : Page) : Doc → Page
  | text s => p.write s
  | wide => p
  | brk b =>
    if breakFits frame b (b.blanks + after) p then p.stay b else p.endLine b
  | box consistent indent body =>
    if (widthAll body + after : Nat) ≤ p.space then printAll .flat after p body
    else
      let inner := printAll (.broken consistent) after { p with indent := p.indent + indent } body
      { inner with indent := p.indent }

def printAll (frame : Frame) (after : Nat) (p : Page) : List Doc → Page
  | [] => p
  | d :: ds => printAll frame after (print frame (reach after ds) p d) ds

end

def render (ds : List Doc) : String := (printAll (.broken false) 0 {} ds).render

end Doc
end FormulaBinding.Layout
