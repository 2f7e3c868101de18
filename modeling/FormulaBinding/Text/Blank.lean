import FormulaBinding.Text.CodePoints

/-! # Blank characters and trimming

The blank characters are those of the property `White_Space`. -/
namespace FormulaBinding.Text

def whiteSpace : CodePoints where
  bounds := [
    9, 14, 32, 33, 133, 134, 160, 161, 5760, 5761, 8192, 8203, 8232, 8234, 8239, 8240, 8287, 8288,
    12288, 12289]

def isBlank (c : Char) : Bool := whiteSpace.contains c

def trimLeft (cs : List Char) : List Char := cs.dropWhile isBlank

def trimRight (cs : List Char) : List Char := (cs.reverse.dropWhile isBlank).reverse

/-- A text without its leading and trailing blanks. -/
def trim (s : String) : String := String.ofList (trimRight (trimLeft s.toList))

end FormulaBinding.Text
