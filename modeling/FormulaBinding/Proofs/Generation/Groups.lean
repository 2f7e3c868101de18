import FormulaBinding.Unit.Key
import Mathlib.Data.List.Basic

/-!
# Groups of candidates

The groups of candidates stand in strictly increasing order of their keys, there is one for each key
that a candidate has, and each consists of the candidates with its key, in their order.
-/

namespace FormulaBinding

namespace UnitKey

theorem isBefore_iff {a b : UnitKey} :
    a.isBefore b = true ↔
      a.scope < b.scope ∨ a.scope = b.scope ∧ a.container < b.container := by
  simp only [isBefore, Bool.or_eq_true, Bool.and_eq_true, decide_eq_true_eq, beq_iff_eq]

theorem isBefore_irrefl (a : UnitKey) : ¬ a.isBefore a = true := by
  rw [isBefore_iff]
  rintro (h | ⟨-, h⟩)
  · exact String.lt_irrefl _ h
  · exact String.lt_irrefl _ h

theorem isBefore_trans {a b c : UnitKey} (hab : a.isBefore b = true) (hbc : b.isBefore c = true) :
    a.isBefore c = true := by
  rw [isBefore_iff] at hab hbc ⊢
  rcases hab with hab | ⟨sab, hab⟩ <;> rcases hbc with hbc | ⟨sbc, hbc⟩
  · exact .inl (String.lt_trans hab hbc)
  · exact .inl (sbc ▸ hab)
  · exact .inl (sab ▸ hbc)
  · exact .inr ⟨sab.trans sbc, String.lt_trans hab hbc⟩

private theorem lt_or_eq_or_lt (a b : String) : a < b ∨ a = b ∨ b < a := by
  rcases String.le_total a b with h | h
  · by_cases hba : b ≤ a
    · exact .inr (.inl (String.le_antisymm h hba))
    · exact .inl (String.not_le.mp hba)
  · by_cases hab : a ≤ b
    · exact .inr (.inl (String.le_antisymm hab h))
    · exact .inr (.inr (String.not_le.mp hab))

theorem isBefore_or_eq_or_isBefore (a b : UnitKey) :
    a.isBefore b = true ∨ a = b ∨ b.isBefore a = true := by
  simp only [isBefore_iff]
  rcases lt_or_eq_or_lt a.scope b.scope with h | hs | h
  · exact .inl (.inl h)
  · rcases lt_or_eq_or_lt a.container b.container with h | hc | h
    · exact .inl (.inr ⟨hs, h⟩)
    · refine .inr (.inl ?_)
      cases a
      cases b
      simp_all
    · exact .inr (.inr (.inr ⟨hs.symm, h⟩))
  · exact .inr (.inr (.inl h))

end UnitKey

namespace Candidate

abbrev Groups := List (UnitKey × List Candidate)

def keysOf (gs : Groups) : List UnitKey := gs.map Prod.fst

def Increasing (ks : List UnitKey) : Prop := ks.Pairwise fun a b => a.isBefore b = true

theorem mem_keysOf_addToGroups (c : Candidate) (gs : Groups) (k : UnitKey) :
    k ∈ keysOf (addToGroups c gs) ↔ k = c.key ∨ k ∈ keysOf gs := by
  induction gs with
  | nil => simp [addToGroups, keysOf]
  | cons g gs ih =>
    obtain ⟨l, cs⟩ := g
    rw [addToGroups]
    split_ifs with same before
    · simp [keysOf, same]
    · simp [keysOf]
    · simp only [keysOf, List.map_cons, List.mem_cons] at ih ⊢
      rw [ih]
      exact or_left_comm

theorem increasing_addToGroups (c : Candidate) {gs : Groups} (h : Increasing (keysOf gs)) :
    Increasing (keysOf (addToGroups c gs)) := by
  induction gs with
  | nil => simp [addToGroups, keysOf, Increasing]
  | cons g gs ih =>
    obtain ⟨l, cs⟩ := g
    obtain ⟨hl, hgs⟩ := List.pairwise_cons.mp h
    rw [addToGroups]
    split_ifs with same before
    · exact h
    · refine List.pairwise_cons.mpr ⟨?_, h⟩
      intro k hk
      rcases List.mem_cons.mp hk with rfl | hk
      · exact before
      · exact UnitKey.isBefore_trans before (hl k hk)
    · refine List.pairwise_cons.mpr ⟨?_, ih hgs⟩
      intro k hk
      rcases (mem_keysOf_addToGroups c gs k).mp hk with rfl | hk
      · rcases UnitKey.isBefore_or_eq_or_isBefore c.key l with h | h | h
        · exact absurd h before
        · exact absurd h same
        · exact h
      · exact hl k hk

/-- A group after one more candidate is an old one with another key, or the candidate together with
the old group of its key, if there was one. -/
theorem mem_addToGroups {c : Candidate} {gs : Groups} (h : Increasing (keysOf gs))
    {g : UnitKey × List Candidate} (hg : g ∈ addToGroups c gs) :
    (g ∈ gs ∧ g.1 ≠ c.key) ∨
      ∃ cs, g = (c.key, c :: cs) ∧ ((c.key, cs) ∈ gs ∨ cs = [] ∧ c.key ∉ keysOf gs) := by
  induction gs with
  | nil =>
    refine .inr ⟨[], by simpa [addToGroups] using hg, .inr ⟨rfl, by simp [keysOf]⟩⟩
  | cons f gs ih =>
    obtain ⟨l, cs⟩ := f
    obtain ⟨hl, hgs⟩ := List.pairwise_cons.mp h
    rw [addToGroups] at hg
    split_ifs at hg with same before
    · rcases List.mem_cons.mp hg with rfl | hg
      · exact .inr ⟨cs, by rw [same], .inl (by simp [same])⟩
      · refine .inl ⟨List.mem_cons_of_mem _ hg, ?_⟩
        intro he
        have := hl g.1 (List.mem_map_of_mem hg)
        rw [he, same] at this
        exact UnitKey.isBefore_irrefl _ this
    · have fresh : c.key ∉ keysOf ((l, cs) :: gs) := by
        intro hk
        rcases List.mem_cons.mp hk with hk | hk
        · exact same hk
        · exact UnitKey.isBefore_irrefl _ (UnitKey.isBefore_trans before (hl _ hk))
      rcases List.mem_cons.mp hg with rfl | hg
      · exact .inr ⟨[], rfl, .inr ⟨rfl, fresh⟩⟩
      · exact .inl ⟨hg, fun he => fresh (he ▸ List.mem_map_of_mem hg)⟩
    · rcases List.mem_cons.mp hg with rfl | hg
      · exact .inl ⟨List.mem_cons_self, fun he => same he.symm⟩
      · rcases ih hgs hg with ⟨hg, hne⟩ | ⟨ds, rfl, hds | ⟨rfl, fresh⟩⟩
        · exact .inl ⟨List.mem_cons_of_mem _ hg, hne⟩
        · exact .inr ⟨ds, rfl, .inl (List.mem_cons_of_mem _ hds)⟩
        · refine .inr ⟨[], rfl, .inr ⟨rfl, ?_⟩⟩
          intro hk
          rcases List.mem_cons.mp hk with hk | hk
          · exact same hk
          · exact fresh hk

def ofKey (k : UnitKey) (cs : List Candidate) : List Candidate := cs.filter fun c => c.key = k

theorem mem_keysOf_groups (cs : List Candidate) (k : UnitKey) :
    k ∈ keysOf (groups cs) ↔ ∃ c ∈ cs, c.key = k := by
  induction cs with
  | nil => simp [groups, keysOf]
  | cons c cs ih =>
    have step : k ∈ keysOf (groups (c :: cs)) ↔ k = c.key ∨ k ∈ keysOf (groups cs) :=
      mem_keysOf_addToGroups c (groups cs) k
    rw [step, ih, List.exists_mem_cons_iff]
    exact or_congr_left eq_comm

theorem increasing_keysOf_groups (cs : List Candidate) : Increasing (keysOf (groups cs)) := by
  induction cs with
  | nil => exact List.Pairwise.nil
  | cons c cs ih => exact increasing_addToGroups c ih

theorem eq_ofKey_of_mem_groups {cs : List Candidate} {g : UnitKey × List Candidate}
    (hg : g ∈ groups cs) : g.2 = ofKey g.1 cs := by
  induction cs generalizing g with
  | nil => simp [groups] at hg
  | cons c cs ih =>
    have hg : g ∈ addToGroups c (groups cs) := hg
    rcases mem_addToGroups (increasing_keysOf_groups cs) hg with ⟨hg, hne⟩ | ⟨ds, rfl, h⟩
    · rw [ih hg, ofKey, ofKey, List.filter_cons_of_neg (by simpa using hne.symm)]
    · have rest : ds = ofKey c.key cs := by
        rcases h with hds | ⟨rfl, fresh⟩
        · exact ih hds
        · rw [mem_keysOf_groups] at fresh
          refine (List.filter_eq_nil_iff.mpr fun d hd => ?_).symm
          simpa using fun he => fresh ⟨d, hd, he⟩
      rw [rest, ofKey, ofKey, List.filter_cons_of_pos (by simp)]

theorem groups_eq_map (cs : List Candidate) :
    groups cs = (keysOf (groups cs)).map fun k => (k, ofKey k cs) := by
  calc groups cs = (groups cs).map id := (List.map_id _).symm
    _ = (groups cs).map fun g => (g.1, ofKey g.1 cs) :=
        List.map_congr_left fun g hg => Prod.ext rfl (eq_ofKey_of_mem_groups hg)
    _ = (keysOf (groups cs)).map fun k => (k, ofKey k cs) := by rw [keysOf, List.map_map]; rfl

theorem ofKey_ne_nil {cs : List Candidate} {k : UnitKey} (hk : k ∈ keysOf (groups cs)) :
    ofKey k cs ≠ [] := by
  obtain ⟨c, hc, he⟩ := (mem_keysOf_groups cs k).mp hk
  exact List.ne_nil_of_mem (List.mem_filter.mpr ⟨hc, by simpa using he⟩)

theorem flatMap_groups_perm (cs : List Candidate) : ((groups cs).flatMap Prod.snd).Perm cs := by
  have step (c : Candidate) (gs : Groups) :
      ((addToGroups c gs).flatMap Prod.snd).Perm (c :: gs.flatMap Prod.snd) := by
    induction gs with
    | nil => exact List.Perm.refl _
    | cons g gs ih =>
      obtain ⟨l, ds⟩ := g
      rw [addToGroups]
      split_ifs with same before
      · exact List.Perm.refl _
      · exact List.Perm.refl _
      · exact (ih.append_left ds).trans List.perm_middle
  induction cs with
  | nil => exact List.Perm.refl _
  | cons c cs ih => exact (step c (groups cs)).trans (ih.cons c)

theorem groups_eq_singleton {cs : List Candidate} {k : UnitKey} (hne : cs ≠ [])
    (hk : ∀ c ∈ cs, c.key = k) : groups cs = [(k, cs)] := by
  induction cs with
  | nil => exact absurd rfl hne
  | cons c cs ih =>
    have first : c.key = k := hk c List.mem_cons_self
    have step : groups (c :: cs) = addToGroups c (groups cs) := rfl
    by_cases rest : cs = []
    · rw [step, rest, groups, List.foldr_nil, addToGroups, first]
    · rw [step, ih rest fun d hd => hk d (List.mem_cons_of_mem c hd), addToGroups, if_pos first]

end Candidate

end FormulaBinding
