import Mathlib.Data.List.Forall2

/-!
# When a reading succeeds

A chain of steps that may fail succeeds where each of them does, and fails where one of them fails.
-/

namespace FormulaBinding

variable {ε δ α β : Type}

theorem bind_eq_ok {x : Except ε α} {f : α → Except ε β} {b : β} :
    x >>= f = .ok b ↔ ∃ a, x = .ok a ∧ f a = .ok b := by
  cases x with
  | error e => simp [bind, Except.bind]
  | ok a => simp [bind, Except.bind]

theorem mapError_eq_ok {f : ε → δ} {x : Except ε α} {a : α} :
    x.mapError f = .ok a ↔ x = .ok a := by
  cases x with
  | error e => exact iff_of_false nofun nofun
  | ok b => exact ⟨fun h => congrArg _ (Except.ok.inj h), fun h => congrArg _ (Except.ok.inj h)⟩

theorem eq_ok_of_toOption {x : Except ε α} {a : α} (h : x.toOption = some a) : x = .ok a := by
  cases x with
  | error _ => cases h
  | ok b => rw [Option.some.inj h]

theorem bind_eq_error {x : Except ε α} {f : α → Except ε β} {e : ε} :
    x >>= f = .error e ↔ x = .error e ∨ ∃ a, x = .ok a ∧ f a = .error e := by
  cases x with
  | error e' => simp [bind, Except.bind]
  | ok a => simp [bind, Except.bind]

theorem mapError_eq_error {f : ε → δ} {x : Except ε α} {e : δ} :
    x.mapError f = .error e ↔ ∃ e', x = .error e' ∧ f e' = e := by
  cases x with
  | error e' =>
    constructor
    · exact fun h => ⟨e', rfl, Except.error.inj h⟩
    · rintro ⟨_, ⟨⟩, rfl⟩
      rfl
  | ok a => exact iff_of_false nofun nofun

/-- A reading of a list fails as the first member does that cannot be read. -/
theorem mapM_eq_error_iff {f : α → Except ε β} {xs : List α} {e : ε} :
    xs.mapM f = .error e ↔ ∃ before x after, xs = before ++ x :: after ∧
      (∀ y ∈ before, ∃ b, f y = .ok b) ∧ f x = .error e := by
  induction xs with
  | nil =>
    refine iff_of_false nofun ?_
    rintro ⟨before, x, after, split, -⟩
    exact List.append_ne_nil_of_right_ne_nil _ (List.cons_ne_nil _ _) split.symm
  | cons x xs ih =>
    rw [List.mapM_cons, bind_eq_error]
    constructor
    · rintro (first | ⟨b, first, later⟩)
      · exact ⟨[], x, xs, rfl, List.forall_mem_nil _, first⟩
      · have later := (bind_eq_error.mp later).resolve_right nofun
        obtain ⟨before, y, after, rfl, read, failed⟩ := ih.mp later
        exact ⟨x :: before, y, after, rfl, List.forall_mem_cons.mpr ⟨⟨b, first⟩, read⟩, failed⟩
    · rintro ⟨_ | ⟨y, before⟩, z, after, split, read, failed⟩
      · cases split
        exact .inl failed
      · cases split
        obtain ⟨⟨b, first⟩, read⟩ := List.forall_mem_cons.mp read
        have later := ih.mpr ⟨before, z, after, rfl, read, failed⟩
        exact .inr ⟨b, first, bind_eq_error.mpr (.inl later)⟩

theorem exists_of_mapM_eq_error {f : α → Except ε β} {xs : List α} {e : ε}
    (h : xs.mapM f = .error e) : ∃ x ∈ xs, f x = .error e := by
  obtain ⟨before, x, after, rfl, -, failed⟩ := mapM_eq_error_iff.mp h
  exact ⟨x, List.mem_append_right before List.mem_cons_self, failed⟩

theorem isOk_iff {x : Except ε α} : x.isOk = true ↔ ∃ a, x = .ok a := by
  cases x with
  | error e => exact iff_of_false nofun nofun
  | ok a => exact iff_of_true rfl ⟨a, rfl⟩

theorem isOk_eq_false_iff {x : Except ε α} : x.isOk = false ↔ ∃ e, x = .error e := by
  cases x with
  | error e => exact iff_of_true rfl ⟨e, rfl⟩
  | ok a => exact iff_of_false nofun nofun

theorem isOk_mapM {f : α → Except ε β} {xs : List α} :
    (xs.mapM f).isOk = true ↔ ∀ x ∈ xs, (f x).isOk = true := by
  induction xs with
  | nil => exact iff_of_true rfl nofun
  | cons x xs ih =>
    rw [List.mapM_cons, List.forall_mem_cons, ← ih, isOk_iff, isOk_iff, isOk_iff]
    constructor
    · rintro ⟨ys, h⟩
      obtain ⟨y, head, h⟩ := bind_eq_ok.mp h
      obtain ⟨zs, tail, -⟩ := bind_eq_ok.mp h
      exact ⟨⟨y, head⟩, zs, tail⟩
    · rintro ⟨⟨y, head⟩, zs, tail⟩
      exact ⟨y :: zs, bind_eq_ok.mpr ⟨y, head, bind_eq_ok.mpr ⟨zs, tail, rfl⟩⟩⟩

/-- What a reading of a list consists of is read from members of the list. -/
theorem exists_of_mem_mapM {f : α → Except ε β} {xs : List α} {ys : List β} (h : xs.mapM f = .ok ys)
    {y : β} (mem : y ∈ ys) : ∃ x ∈ xs, f x = .ok y := by
  induction xs generalizing ys with
  | nil =>
    cases h
    cases mem
  | cons x xs ih =>
    rw [List.mapM_cons] at h
    obtain ⟨y', head, h⟩ := bind_eq_ok.mp h
    obtain ⟨ys', tail, h⟩ := bind_eq_ok.mp h
    cases h
    rcases List.mem_cons.mp mem with rfl | mem
    · exact ⟨x, List.mem_cons_self, head⟩
    · obtain ⟨x', inside, read⟩ := ih tail mem
      exact ⟨x', List.mem_cons_of_mem x inside, read⟩

theorem exists_of_mem_forall₂ {R : α → β → Prop} {xs : List α} {ys : List β}
    (h : List.Forall₂ R xs ys) {y : β} (mem : y ∈ ys) : ∃ x ∈ xs, R x y := by
  induction h with
  | nil => cases mem
  | @cons x y' xs ys first _ ih =>
    rcases List.mem_cons.mp mem with rfl | mem
    · exact ⟨x, List.mem_cons_self, first⟩
    · obtain ⟨x', inside, related⟩ := ih mem
      exact ⟨x', List.mem_cons_of_mem x inside, related⟩

end FormulaBinding
