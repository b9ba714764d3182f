import Mathlib.Algebra.Order.BigOperators.Group.List
import Mathlib.Algebra.Order.Group.Abs
import Mathlib.Algebra.Order.Ring.Int

/-!
# Integers as binary64 numbers

A sum of two integers that are binary64 numbers is rounded to the nearest number of 53 significant bits, the
even one of two that are equally near; all of these are integers again. `roundInt` is that rounding, as long as
nothing is so large that it overflows. It changes no integer up to `2 ^ 53`, and so a sum whose partial sums
stay there is exact (`roundedSum_eq_sum`).
-/

namespace Binary64

/-- The nearest natural number of 53 significant bits, ties to even. -/
def roundNat (m : ℕ) : ℕ :=
  if m ≤ 2 ^ 53 then m
  else
    let unit := 2 ^ (Nat.log2 m - 52)
    let q := m / unit
    let r := m % unit
    if unit < 2 * r ∨ (unit = 2 * r ∧ q % 2 = 1) then (q + 1) * unit else q * unit

/-- The nearest binary64 number, ties to even. -/
def roundInt (n : ℤ) : ℤ := if 0 ≤ n then roundNat n.natAbs else -roundNat n.natAbs

theorem roundInt_eq_self {n : ℤ} (h : |n| ≤ 2 ^ 53) : roundInt n = n := by
  have hle : n.natAbs ≤ 2 ^ 53 := by
    obtain ⟨hlow, hhigh⟩ := abs_le.1 h
    omega
  unfold roundInt roundNat
  rw [if_pos hle]
  split <;> omega

/-- The sum of a list as a loop computes it. -/
def roundedSum (ns : List ℤ) : ℤ := ns.foldl (fun s n => roundInt (s + n)) 0

/-- No partial sum leaves the range in which every integer is a binary64 number. -/
def PartialSumsExact (ns : List ℤ) : Prop := ∀ i, i ≤ ns.length → |(ns.take i).sum| ≤ 2 ^ 53

instance (ns : List ℤ) : Decidable (PartialSumsExact ns) :=
  decidable_of_iff (∀ i ∈ List.range (ns.length + 1), |(ns.take i).sum| ≤ 2 ^ 53)
    ⟨fun h i hi => h i (List.mem_range.2 (Nat.lt_succ_of_le hi)),
      fun h i hi => h i (Nat.le_of_lt_succ (List.mem_range.1 hi))⟩

/-- A sum whose partial sums are exact is exact. -/
theorem roundedSum_eq_sum {ns : List ℤ} (h : PartialSumsExact ns) : roundedSum ns = ns.sum := by
  suffices ∀ (ns : List ℤ) (s : ℤ), (∀ i, i ≤ ns.length → |s + (ns.take i).sum| ≤ 2 ^ 53) →
      ns.foldl (fun s n => roundInt (s + n)) s = s + ns.sum by
    have hsum := this ns 0 (by simpa [PartialSumsExact] using h)
    simpa [roundedSum] using hsum
  intro ns
  induction ns with
  | nil => intro s _; simp
  | cons n ns ih =>
    intro s hs
    have hfirst := hs 1 (by simp)
    rw [List.take_succ_cons, List.take_zero, List.sum_cons, List.sum_nil, add_zero] at hfirst
    rw [List.foldl_cons, roundInt_eq_self hfirst, ih (s + n) fun i hi => ?_, List.sum_cons, add_assoc]
    have hnext := hs (i + 1) (by simpa using hi)
    rwa [List.take_succ_cons, List.sum_cons, ← add_assoc] at hnext

/-- Partial sums of a list do not exceed what its numbers come to without their signs. -/
theorem partialSumsExact_of_sum_abs_le {ns : List ℤ} (h : (ns.map (|·|)).sum ≤ 2 ^ 53) : PartialSumsExact ns := by
  intro i _
  have hdrop : 0 ≤ ((ns.drop i).map (|·|)).sum :=
    List.sum_nonneg fun x hx => (List.mem_map.1 hx).elim fun n hn => hn.2 ▸ abs_nonneg n
  have hsplit : (ns.map (|·|)).sum = ((ns.take i).map (|·|)).sum + ((ns.drop i).map (|·|)).sum := by
    rw [← List.sum_append, ← List.map_append, List.take_append_drop]
  exact (List.le_sum_of_subadditive (|·|) abs_zero.le abs_add_le _).trans (by omega)

end Binary64
