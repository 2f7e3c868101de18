import FormulaBinding.Proofs.Body.Mutability
import Mathlib.Data.Finset.Card
import Mathlib.Data.Nat.Find
import Mathlib.Order.Bounds.Basic

/-!
# Fresh locals

A local of a body is its base with underscores appended, one at a time, as long as a parameter has
the name. Every name that is passed over is that of another parameter, so there are at most as many
underscores as distinct names of parameters, and they are the fewest that will do. The locals of
one body are never the same, since their bases begin differently.
-/

namespace FormulaBinding

def underscored (base : String) (k : ℕ) : String := base ++ String.ofList (List.replicate k '_')

@[simp]
theorem underscored_zero (base : String) : underscored base 0 = base := by
  simp [underscored]

theorem underscored_succ (base : String) (k : ℕ) :
    underscored base (k + 1) = underscored (base ++ "_") k := by
  rw [underscored, underscored, List.replicate_succ, String.append_assoc, String.ofList_cons]
  rfl

theorem toList_underscored (base : String) (k : ℕ) :
    (underscored base k).toList = base.toList ++ List.replicate k '_' := by
  simp [underscored]

theorem length_underscored (base : String) (k : ℕ) :
    (underscored base k).length = base.length + k := by
  simp [underscored]

theorem underscored_injective (base : String) : Function.Injective (underscored base) := by
  intro j k same
  have lengths := congrArg String.length same
  rw [length_underscored, length_underscored] at lengths
  omega

/-- The numbers of underscores that make the base differ from all names in use. -/
def freshCounts (used : List String) (base : String) : Set ℕ := {k | underscored base k ∉ used}

variable {used : List String} {base last : String} {k n : ℕ}

instance : DecidablePred (· ∈ freshCounts used base) := fun k =>
  inferInstanceAs (Decidable (underscored base k ∉ used))

theorem zero_mem_freshCounts : 0 ∈ freshCounts used base ↔ base ∉ used := by
  simp [freshCounts]

theorem succ_mem_freshCounts :
    k + 1 ∈ freshCounts used base ↔ k ∈ freshCounts used (base ++ "_") := by
  simp [freshCounts, underscored_succ]

/-- More candidates than names in use cannot all be in use. -/
theorem exists_mem_freshCounts (used : List String) (base : String) :
    ∃ k ≤ used.toFinset.card, k ∈ freshCounts used base := by
  have more : used.toFinset.card <
      ((Finset.range (used.toFinset.card + 1)).image (underscored base)).card := by
    rw [Finset.card_image_of_injective _ (underscored_injective base), Finset.card_range]
    omega
  obtain ⟨name, candidate, free⟩ := Finset.exists_mem_notMem_of_card_lt_card more
  obtain ⟨k, within, rfl⟩ := Finset.mem_image.mp candidate
  have few := Finset.mem_range.mp within
  exact ⟨k, by omega, fun mem => free (List.mem_toFinset.mpr mem)⟩

theorem isLeast_freshCounts_zero_iff : IsLeast (freshCounts used base) 0 ↔ base ∉ used := by
  constructor
  · rintro ⟨free, -⟩
    exact zero_mem_freshCounts.mp free
  · intro free
    exact ⟨zero_mem_freshCounts.mpr free, fun _ _ => Nat.zero_le _⟩

/-- Where the base itself is in use, it takes one underscore more than the base with an underscore
does. -/
theorem isLeast_freshCounts_succ_iff :
    IsLeast (freshCounts used base) (k + 1) ↔
      base ∈ used ∧ IsLeast (freshCounts used (base ++ "_")) k := by
  constructor
  · rintro ⟨free, least⟩
    have taken : base ∈ used := by
      by_contra unused
      exact Nat.not_succ_le_zero k (least (zero_mem_freshCounts.mpr unused))
    refine ⟨taken, succ_mem_freshCounts.mp free, fun j hj => ?_⟩
    have further := least (succ_mem_freshCounts.mpr hj)
    omega
  · rintro ⟨taken, free, least⟩
    refine ⟨succ_mem_freshCounts.mpr free, fun j hj => ?_⟩
    match j with
    | 0 => exact absurd taken (zero_mem_freshCounts.mp hj)
    | j + 1 =>
      have further := least (succ_mem_freshCounts.mp hj)
      omega

/-- The loop that makes a name fresh, from a name to its end: as long as the name is in use, an
underscore is appended. It ends with a name after so many underscores. -/
inductive Freshens (used : List String) : String → ℕ → String → Prop where
  | free {name : String} (h : name ∉ used) : Freshens used name 0 name
  | taken {name last : String} {k : ℕ} (h : name ∈ used)
      (rest : Freshens used (name ++ "_") k last) : Freshens used name (k + 1) last

/-- The loop ends exactly with the fewest underscores that will do. -/
theorem freshens_iff :
    Freshens used base k last ↔
      last = underscored base k ∧ IsLeast (freshCounts used base) k := by
  induction k generalizing base with
  | zero =>
    rw [isLeast_freshCounts_zero_iff, underscored_zero]
    constructor
    · rintro ⟨free⟩
      exact ⟨rfl, free⟩
    · rintro ⟨rfl, free⟩
      exact .free free
  | succ k ih =>
    rw [isLeast_freshCounts_succ_iff, underscored_succ]
    constructor
    · rintro (_ | ⟨taken, rest⟩)
      obtain ⟨same, least⟩ := ih.mp rest
      exact ⟨same, taken, least⟩
    · rintro ⟨same, taken, least⟩
      exact .taken taken (ih.mpr ⟨same, least⟩)

/-- Where as many underscores are allowed as the loop appends, or more, its end is what comes out. -/
theorem Freshens.appendFresh_eq (h : Freshens used base k last) (enough : k ≤ n) :
    appendFresh used n base = last := by
  induction h generalizing n with
  | free free =>
    cases n with
    | zero => rfl
    | succ n => rw [appendFresh, if_neg free]
  | taken taken rest ih =>
    cases n with
    | zero => omega
    | succ n =>
      rw [appendFresh, if_pos taken]
      exact ih (by omega)

/-- The loop ends, after at most as many underscores as there are distinct names in use, with the
fresh name. -/
theorem exists_freshens (used : List String) (base : String) :
    ∃ k ≤ used.toFinset.card, Freshens used base k (freshName used base) := by
  obtain ⟨bound, few, free⟩ := exists_mem_freshCounts used base
  have possible : ∃ k, k ∈ freshCounts used base := ⟨bound, free⟩
  have least : IsLeast (freshCounts used base) (Nat.find possible) :=
    ⟨Nat.find_spec possible, fun _ h => Nat.find_min' possible h⟩
  have within : Nat.find possible ≤ used.toFinset.card := (least.2 free).trans few
  have ends := freshens_iff.mpr ⟨rfl, least⟩
  -- As many underscores as names in use are allowed, repeated ones counted, so these are enough.
  have same : freshName used base = underscored base (Nat.find possible) :=
    ends.appendFresh_eq (within.trans used.toFinset_card_le)
  exact ⟨Nat.find possible, within, same ▸ ends⟩

theorem exists_freshName_eq (used : List String) (base : String) :
    ∃ k, freshName used base = underscored base k := by
  obtain ⟨k, -, ends⟩ := exists_freshens used base
  exact ⟨k, (freshens_iff.mp ends).1⟩

theorem freshName_notMem (used : List String) (base : String) : freshName used base ∉ used := by
  obtain ⟨k, -, ends⟩ := exists_freshens used base
  obtain ⟨same, free, -⟩ := freshens_iff.mp ends
  exact same ▸ free

/-- Both locals of a body are different, since their bases begin differently. -/
theorem freshName_ne (used : List String) :
    freshName used "result" ≠ freshName used "evaluator" := by
  obtain ⟨j, result⟩ := exists_freshName_eq used "result"
  obtain ⟨k, evaluator⟩ := exists_freshName_eq used "evaluator"
  rw [result, evaluator]
  intro same
  have heads : "result".toList ++ List.replicate j '_' =
      "evaluator".toList ++ List.replicate k '_' := by
    rw [← toList_underscored, ← toList_underscored, same]
  have first : some 'r' = some 'e' := congrArg List.head? heads
  exact absurd first (by decide)

namespace BodyBuilder

theorem call_locals (b : BodyBuilder) (step : BodyStep) :
    (b.call step).evaluator = b.evaluator ∧ (b.call step).result = b.result := by
  cases step <;> exact ⟨rfl, rfl⟩

theorem calls_locals (b : BodyBuilder) (steps : List BodyStep) :
    (b.calls steps).evaluator = b.evaluator ∧ (b.calls steps).result = b.result := by
  induction steps generalizing b with
  | nil => exact ⟨rfl, rfl⟩
  | cons step steps ih =>
    obtain ⟨evaluator, result⟩ := call_locals b step
    rw [← evaluator, ← result]
    exact ih (b.call step)

/-- For every base, the loop ends after at most as many underscores as parameters have distinct
names, however many more would be allowed, and the fresh name is the base with the fewest
underscores that make it differ from the names of all parameters. The locals of a body in the
making are different after all calls. -/
theorem locals_areFresh (parameters : List Parameter) :
    (∀ base, ∃ k ≤ (parameters.map Parameter.name).toFinset.card,
      Freshens (parameters.map Parameter.name) base k
        (freshName (parameters.map Parameter.name) base) ∧
      (∀ n, k ≤ n → appendFresh (parameters.map Parameter.name) n base =
        freshName (parameters.map Parameter.name) base) ∧
      freshName (parameters.map Parameter.name) base = underscored base k ∧
      IsLeast {j | ∀ p ∈ parameters, p.name ≠ underscored base j} k) ∧
    ∀ steps, ((start parameters).calls steps).evaluator ≠
      ((start parameters).calls steps).result := by
  constructor
  · intro base
    obtain ⟨k, few, ends⟩ := exists_freshens (parameters.map Parameter.name) base
    obtain ⟨same, least⟩ := freshens_iff.mp ends
    have counts : freshCounts (parameters.map Parameter.name) base =
        {j | ∀ p ∈ parameters, p.name ≠ underscored base j} := by
      simp [freshCounts]
    exact ⟨k, few, ends, fun n enough => ends.appendFresh_eq enough, same, counts ▸ least⟩
  · intro steps
    obtain ⟨evaluator, result⟩ := calls_locals (start parameters) steps
    rw [evaluator, result]
    exact (freshName_ne _).symm

/-- Two names in the way take two underscores; a name in use that is longer still is not in the
way. -/
example : freshName ["result", "result_", "result", "result___"] "result" = "result__" := by
  decide

end BodyBuilder
end FormulaBinding
