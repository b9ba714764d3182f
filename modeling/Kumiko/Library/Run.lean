import Mathlib.Algebra.Ring.Nat
import Mathlib.Data.List.Basic

/-!
# Runs of a transition system

A system is a partial step function `step : σ → α → Option σ`. A run is a finite sequence of enabled actions,
each of which meets a side condition `ok` in the state it starts from. An invariant is proved one step at a time
(`Run.invariant`); concrete runs are evaluated by `exec` (`Run.of_exec`).
-/

namespace Transition

instance neZero_one : NeZero 1 := ⟨Nat.one_ne_zero⟩

instance neZero_two : NeZero 2 := ⟨Nat.succ_ne_zero 1⟩

variable {σ α : Type*} {step : σ → α → Option σ} {ok : σ → α → Prop} {s₀ s s' : σ}

/-- The states reached from `s₀` by steps that each meet `ok`. -/
inductive Run (step : σ → α → Option σ) (ok : σ → α → Prop) (s₀ : σ) : σ → Prop
  /-- The empty run. -/
  | start : Run step ok s₀ s₀
  /-- A run and one more step. -/
  | next {s s' : σ} {a : α} : Run step ok s₀ s → ok s a → step s a = some s' → Run step ok s₀ s'

/-- What holds at the start and is preserved by every step that meets the condition holds in every
state of a run. -/
theorem Run.invariant {I : σ → Prop} (hr : Run step ok s₀ s) (h₀ : I s₀)
    (hs : ∀ s a s', I s → ok s a → step s a = some s' → I s') : I s := by
  induction hr with
  | start => exact h₀
  | next _ hok hstep ih => exact hs _ _ _ ih hok hstep

/-- Runs compose. -/
theorem Run.trans {s₁ : σ} (h₁ : Run step ok s₀ s₁) (h₂ : Run step ok s₁ s) :
    Run step ok s₀ s := by
  induction h₂ with
  | start => exact h₁
  | next _ hok hstep ih => exact .next ih hok hstep

/-- The state a list of actions leads to, when every action is enabled in turn. -/
def exec (step : σ → α → Option σ) : σ → List α → Option σ
  | s, [] => some s
  | s, a :: as => (step s a).bind fun s' => exec step s' as

/-- Whether every action of the list is enabled and meets the decidable condition. -/
def execOk (step : σ → α → Option σ) (ok : σ → α → Bool) : σ → List α → Bool
  | _, [] => true
  | s, a :: as => ok s a && match step s a with
    | some s' => execOk step ok s' as
    | none => false

/-- A list of actions that executes is a run. -/
theorem Run.of_exec {as : List α} (h : exec step s as = some s') :
    Run step (fun _ _ => True) s s' := by
  suffices ∀ s₁, Run step (fun _ _ => True) s s₁ → exec step s₁ as = some s' →
      Run step (fun _ _ => True) s s' from this s .start h
  clear h
  induction as with
  | nil =>
    intro s₁ hr h
    cases h; exact hr
  | cons a as ih =>
    intro s₁ hr h
    obtain ⟨s₂, h₁, h₂⟩ := Option.bind_eq_some_iff.1 h
    exact ih s₂ (.next hr trivial h₁) h₂

/-- A list of actions that executes and meets a decidable condition on the way is a run under that
condition. -/
theorem Run.of_execOk {okb : σ → α → Bool} {as : List α} (hok : ∀ s a, okb s a = true → ok s a)
    (hb : execOk step okb s as = true) (h : exec step s as = some s') : Run step ok s s' := by
  suffices ∀ s₁, Run step ok s s₁ → execOk step okb s₁ as = true → exec step s₁ as = some s' →
      Run step ok s s' from this s .start hb h
  clear h hb
  induction as with
  | nil =>
    intro s₁ hr _ h
    cases h; exact hr
  | cons a as ih =>
    intro s₁ hr hb h
    obtain ⟨s₂, h₁, h₂⟩ := Option.bind_eq_some_iff.1 h
    simp only [execOk, h₁, Bool.and_eq_true] at hb
    exact ih s₂ (.next hr (hok _ _ hb.1) h₁) hb.2 h₂

/-- What holds of the state a list of actions leads to holds of a state a run reaches. -/
theorem exists_run_of_exec (step : σ → α → Option σ) (s : σ) (as : List α) (p : σ → Bool)
    (h : (exec step s as).any p = true) : ∃ s', Run step (fun _ _ => True) s s' ∧ p s' = true := by
  cases hs : exec step s as with
  | none => rw [hs] at h; cases h
  | some s' => exact ⟨s', .of_exec hs, by rwa [hs] at h⟩

/-- The same for a run under a decidable condition. -/
theorem exists_run_of_execOk (step : σ → α → Option σ) (okb : σ → α → Bool) (s : σ) (as : List α)
    (p : σ → Bool) (hok : ∀ s a, okb s a = true → ok s a) (hb : execOk step okb s as = true)
    (h : (exec step s as).any p = true) : ∃ s', Run step ok s s' ∧ p s' = true := by
  cases hs : exec step s as with
  | none => rw [hs] at h; cases h
  | some s' => exact ⟨s', .of_execOk hok hb hs, by rwa [hs] at h⟩

end Transition
