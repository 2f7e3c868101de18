import FormulaBinding.Token.Basic
import Mathlib.Data.Nat.Notation
import Mathlib.Tactic.SplitIfs

/-!
# Angle brackets

Angle brackets are marks and no delimiters, and the second character of an arrow is no bracket. A
token list is scanned for the brackets that are open after it; outside of all brackets neither a
comma nor a dot may stand. So where a comma follows such a list, its end can be told from the tokens
alone.
-/

namespace FormulaBinding.Token

variable {i j k n : ℕ} {ts us vs : List Token} {t : Token} {e e' : Extent}

/-- The number of open brackets after one more token; the flag says whether the token before it is a
hyphen that is joined to it. -/
def scanStep : ℕ × Bool → Token → Option (ℕ × Bool)
  | (n, hyphen), mark c joined _ =>
    if c = '<' then some (n + 1, false)
    else if c = '>' then
      if hyphen then some (n, false) else if n = 0 then none else some (n - 1, false)
    else if n = 0 ∧ (c = ',' ∨ c = '.') then none
    else some (n, c == '-' && joined)
  | (n, _), _ => some (n, false)

def scan : ℕ × Bool → List Token → Option (ℕ × Bool)
  | s, [] => some s
  | s, t :: ts => (scanStep s t).bind (scan · ts)

theorem scan_append (s : ℕ × Bool) (ts us : List Token) :
    scan s (ts ++ us) = (scan s ts).bind (scan · us) := by
  induction ts generalizing s with
  | nil => rfl
  | cons t ts ih =>
    simp only [List.cons_append, scan, Option.bind_assoc]
    exact Option.bind_congr fun s' _ => ih s'

/-- Whether tokens lead from `i` open brackets to `j`, whatever is open around them. -/
def Leads (i j : ℕ) (ts : List Token) : Prop := ∀ n, scan (n + i, false) ts = some (n + j, false)

/-- Whether tokens close what they open, with neither a comma nor a dot outside. -/
abbrev AreCalm (ts : List Token) : Prop := Leads 0 0 ts

namespace Leads

theorem nil : Leads i i [] := fun _ => rfl

theorem append (h : Leads i j ts) (h' : Leads j k us) : Leads i k (ts ++ us) := by
  intro n
  rw [scan_append, h n]
  exact h' n

/-- What holds under fewer brackets holds under more. -/
theorem raise (h : Leads i j ts) (m : ℕ) : Leads (i + m) (j + m) ts := by
  intro n
  have shifted := h (n + m)
  have before : n + m + i = n + (i + m) := by omega
  have after : n + m + j = n + (j + m) := by omega
  rwa [before, after] at shifted

theorem opens (joined : Bool) : Leads i (i + 1) [.mark '<' joined e] := fun _ => rfl

theorem closes (joined : Bool) : Leads (i + 1) i [.mark '>' joined e] := by
  intro n
  simp [scan, scanStep]

theorem comma (joined : Bool) : Leads (i + 1) (i + 1) [.mark ',' joined e] := by
  intro n
  simp [scan, scanStep]

theorem arrow (joined : Bool) : Leads i i [.mark '-' true e, .mark '>' joined e'] := by
  intro n
  simp [scan, scanStep]

/-- The sign of a number is in front of a literal, whatever it is joined to. -/
theorem negative (joined : Bool) (text : String) :
    Leads i i [.mark '-' joined e, .literal text e'] := by
  intro n
  simp [scan, scanStep]

end Leads

/-- Whether a token opens and closes nothing and ends nothing. -/
def isQuiet : Token → Bool
  | mark c joined _ => c ∉ ['<', '>', ',', '.'] && !(c == '-' && joined)
  | _ => true

theorem leads_of_isQuiet (h : t.isQuiet = true) : Leads i i [t] := by
  intro n
  cases t with
  | mark c joined e =>
    simp only [isQuiet, Bool.and_eq_true, decide_eq_true_eq, List.mem_cons, List.not_mem_nil,
      not_or, Bool.not_eq_true', or_false] at h
    obtain ⟨⟨left, right, noComma, noDot⟩, noHyphen⟩ := h
    simp [scan, scanStep, left, right, noComma, noDot, noHyphen]
  | _ => rfl

/-- Whether tokens are at the end of a list, or at a mark that no calm tokens have outside. -/
def EndsList (ts : List Token) : Prop :=
  ∀ t us, ts = t :: us → ∃ c joined e, t = .mark c joined e ∧ (c = ',' ∨ c = '.')

theorem not_areCalm_of_endsList (calm : AreCalm ts) (ends : EndsList (t :: us)) :
    ¬ AreCalm (ts ++ t :: us) := by
  intro whole
  obtain ⟨c, joined, e, rfl, stops⟩ := ends t us rfl
  have scanned := whole 0
  rw [scan_append, calm 0] at scanned
  rcases stops with rfl | rfl
  all_goals simp [scan, scanStep] at scanned

/-- Calm tokens that start a list are told by where they end. -/
theorem append_inj_of_areCalm (first : AreCalm ts) (second : AreCalm us)
    (endsFirst : EndsList vs) {ws : List Token} (endsSecond : EndsList ws)
    (same : ts ++ vs = us ++ ws) : ts = us ∧ vs = ws := by
  rcases List.append_eq_append_iff.mp same with ⟨xs, rfl, rfl⟩ | ⟨xs, rfl, rfl⟩
  · cases xs with
    | nil => exact ⟨(List.append_nil ts).symm, rfl⟩
    | cons x xs =>
      have ends : EndsList (x :: xs) := fun t us same => by
        cases same
        exact endsFirst x _ rfl
      exact absurd second (not_areCalm_of_endsList first ends)
  · cases xs with
    | nil => exact ⟨List.append_nil us, rfl⟩
    | cons x xs =>
      have ends : EndsList (x :: xs) := fun t us same => by
        cases same
        exact endsSecond x _ rfl
      exact absurd first (not_areCalm_of_endsList second ends)

end FormulaBinding.Token
