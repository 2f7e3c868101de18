/-! # Sets of names

A set of names is its members in increasing order of code points, each once. -/
namespace FormulaBinding.Text

def insertName (name : String) : List String → List String
  | [] => [name]
  | n :: ns =>
    if name < n then name :: n :: ns else if name = n then n :: ns else n :: insertName name ns

def nameSet (names : List String) : List String := names.foldr insertName []

/-- The members of a set after adding a name. -/
theorem mem_insertName {name x : String} {ns : List String} :
    x ∈ insertName name ns ↔ x = name ∨ x ∈ ns := by
  induction ns with
  | nil => simp [insertName]
  | cons n ns ih =>
    simp only [insertName]
    split
    · simp
    · split
      · next h => simp [h]
      · simp only [List.mem_cons, ih]
        constructor
        · rintro (h | h | h) <;> simp [h]
        · rintro (h | h | h) <;> simp [h]

/-- The set of a list has the list's members. -/
theorem mem_nameSet {x : String} {names : List String} : x ∈ nameSet names ↔ x ∈ names := by
  induction names with
  | nil => simp [nameSet]
  | cons n ns ih =>
    simp only [nameSet, List.foldr_cons, mem_insertName, List.mem_cons] at ih ⊢
    rw [ih]

end FormulaBinding.Text
