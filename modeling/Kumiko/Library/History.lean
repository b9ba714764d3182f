import Mathlib.Data.List.Basic

/-!
# What holds along a history

A history is a list that grows at its end. `Along P es` says that each entry of `es` stands in the relation `P`
to the entries before it. Appending an entry asks for the relation of that entry alone, and a history keeps
what holds along it when entries are taken back.
-/

namespace History

variable {E : Type*} {P Q : List E → E → Prop} {es es' : List E} {e : E}

/-- Each entry stands in the relation to those before it. -/
def Along (P : List E → E → Prop) (es : List E) : Prop :=
  ∀ before e after, es = before ++ e :: after → P before e

theorem along_nil : Along P [] := fun before e after h => by
  cases before <;> cases h

theorem Along.mono (h : Along P es) (hpq : ∀ before e, P before e → Q before e) : Along Q es :=
  fun before e after he => hpq before e (h before e after he)

/-- What holds along a history holds along each of its beginnings. -/
theorem Along.of_prefix (h : Along P es') (hp : es <+: es') : Along P es := fun before e after he => by
  obtain ⟨rest, rfl⟩ := hp
  refine h before e (after ++ rest) ?_
  rw [he, List.append_assoc, List.cons_append]

theorem along_concat : Along P (es ++ [e]) ↔ Along P es ∧ P es e := by
  constructor
  · intro h
    exact ⟨h.of_prefix (List.prefix_append es [e]), h es e [] rfl⟩
  · rintro ⟨h, he⟩ before x after heq
    rcases List.eq_nil_or_concat after with rfl | ⟨after, y, rfl⟩
    · obtain ⟨rfl, hlast⟩ := List.append_inj' heq rfl
      cases hlast
      exact he
    · have hinit : es = before ++ x :: after := by
        rw [List.concat_eq_append, ← List.cons_append, ← List.append_assoc] at heq
        exact (List.append_inj' heq rfl).1
      exact h before x after hinit

end History
