import Mathlib.Algebra.BigOperators.Group.Finset.Basic

/-!
# Sums with mirrored terms

A finite set of entries with a value each, some of which are mirrors: a mirror cancels an entry of the set that
is no mirror, and no two mirrors cancel the same one. Then the sum is that of the entries that are neither a
mirror nor mirrored (`sum_eq_sum_unmirrored`).
-/

namespace Mirrors

variable {ι M : Type*} [DecidableEq ι] [AddCommGroup M]

/-- The entries that are neither a mirror nor mirrored. -/
def unmirrored (S : Finset ι) (mirror : ι → Prop) [DecidablePred mirror] (original : ι → ι) : Finset ι :=
  S.filter (¬ mirror ·) \ (S.filter mirror).image original

theorem mem_unmirrored {S : Finset ι} {mirror : ι → Prop} [DecidablePred mirror] {original : ι → ι} {i : ι} :
    i ∈ unmirrored S mirror original ↔ (i ∈ S ∧ ¬ mirror i) ∧ ∀ r ∈ S, mirror r → original r ≠ i := by
  simp only [unmirrored, Finset.mem_sdiff, Finset.mem_filter, Finset.mem_image, not_exists, not_and, and_imp]

/-- Mirrors and what they cancel add nothing. -/
theorem sum_eq_sum_unmirrored {S : Finset ι} {mirror : ι → Prop} [DecidablePred mirror] {original : ι → ι}
    {v : ι → M} (hmem : ∀ r ∈ S, mirror r → original r ∈ S ∧ ¬ mirror (original r))
    (hinj : ∀ r ∈ S, mirror r → ∀ r' ∈ S, mirror r' → original r = original r' → r = r')
    (hv : ∀ r ∈ S, mirror r → v (original r) + v r = 0) :
    ∑ i ∈ S, v i = ∑ i ∈ unmirrored S mirror original, v i := by
  have himage : ∑ i ∈ (S.filter mirror).image original, v i = -∑ r ∈ S.filter mirror, v r := by
    rw [Finset.sum_image, ← Finset.sum_neg_distrib]
    · refine Finset.sum_congr rfl fun r hr => ?_
      obtain ⟨hrS, hrm⟩ := Finset.mem_filter.1 hr
      exact eq_neg_of_add_eq_zero_left (hv r hrS hrm)
    · intro r hr r' hr' heq
      obtain ⟨hrS, hrm⟩ := Finset.mem_filter.1 hr
      obtain ⟨hrS', hrm'⟩ := Finset.mem_filter.1 hr'
      exact hinj r hrS hrm r' hrS' hrm' heq
  have hsub : (S.filter mirror).image original ⊆ S.filter (¬ mirror ·) := by
    intro i hi
    obtain ⟨r, hr, rfl⟩ := Finset.mem_image.1 hi
    obtain ⟨hrS, hrm⟩ := Finset.mem_filter.1 hr
    exact Finset.mem_filter.2 (hmem r hrS hrm)
  calc ∑ i ∈ S, v i
      = ∑ i ∈ S.filter mirror, v i + ∑ i ∈ S.filter (¬ mirror ·), v i :=
        (Finset.sum_filter_add_sum_filter_not S mirror v).symm
    _ = ∑ i ∈ S.filter mirror, v i +
          (∑ i ∈ unmirrored S mirror original, v i + ∑ i ∈ (S.filter mirror).image original, v i) := by
        rw [unmirrored, Finset.sum_sdiff hsub]
    _ = ∑ i ∈ unmirrored S mirror original, v i := by
        rw [himage, add_left_comm, add_neg_cancel, add_zero]

end Mirrors
