import Mathlib.Data.List.Basic

/-! Runs that may fail, taken apart where they succeed. -/
namespace UnitArith

variable {ε β γ : Type}

theorem bind_eq_ok_iff {x : Except ε β} {f : β → Except ε γ} {c : γ} :
    x >>= f = .ok c ↔ ∃ b, x = .ok b ∧ f b = .ok c := by
  cases x with
  | error e => simp [bind, Except.bind]
  | ok b => simp [bind, Except.bind]

theorem foldlM_cons_eq_ok_iff {step : β → γ → Except ε β} {start finish : β} {x : γ}
    {xs : List γ} : (x :: xs).foldlM step start = .ok finish ↔
      ∃ next, step start x = .ok next ∧ xs.foldlM step next = .ok finish := by
  rw [List.foldlM_cons, bind_eq_ok_iff]

theorem foldlM_append_eq_ok_iff {step : β → γ → Except ε β} {start finish : β}
    {before after : List γ} : (before ++ after).foldlM step start = .ok finish ↔
      ∃ middle, before.foldlM step start = .ok middle ∧
        after.foldlM step middle = .ok finish := by
  rw [List.foldlM_append, bind_eq_ok_iff]

end UnitArith
