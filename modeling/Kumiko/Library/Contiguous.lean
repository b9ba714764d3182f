import Mathlib.Data.Int.Interval

/-!
# Contiguous numbers

A list of numbers is contiguous when it holds exactly `1, …, n`, in some order and each once. A list
without duplicates is contiguous as soon as every number above one has its predecessor in the list
(`contiguous_of_closed`), which is what a check of the predecessor at each insertion gives.
-/

/-- The list holds exactly the numbers from one to its length. -/
def Contiguous (l : List ℤ) : Prop := l.Perm ((List.range l.length).map fun i : ℕ => (i : ℤ) + 1)

instance (l : List ℤ) : Decidable (Contiguous l) := inferInstanceAs (Decidable (List.Perm _ _))

namespace Contiguous

variable {l : List ℤ} {v : ℤ}

theorem mem_iff (h : Contiguous l) : v ∈ l ↔ 1 ≤ v ∧ v ≤ l.length := by
  rw [List.Perm.mem_iff h, List.mem_map]
  constructor
  · rintro ⟨i, hi, rfl⟩
    have := List.mem_range.1 hi
    omega
  · intro hv
    exact ⟨(v - 1).toNat, List.mem_range.2 (by omega), by omega⟩

/-- The greatest number is the length. -/
theorem max?_getD (h : Contiguous l) : l.max?.getD 0 = l.length := by
  cases l with
  | nil => rfl
  | cons a l =>
    have hm : (a :: l).max? = some ((a :: l).length : ℤ) :=
      List.max?_eq_some_iff.2 ⟨h.mem_iff.2 ⟨by simp, le_rfl⟩, fun b hb => (h.mem_iff.1 hb).2⟩
    rw [hm, Option.getD_some]

/-- One number more. -/
theorem concat (h : Contiguous l) : Contiguous (l ++ [(l.length : ℤ) + 1]) := by
  unfold Contiguous
  rw [List.length_append, List.length_singleton, List.range_succ, List.map_append]
  exact h.append_right _

end Contiguous

/-- A list without duplicates of numbers from one on, in which every number but one has its
predecessor, is contiguous. -/
theorem contiguous_of_closed {l : List ℤ} (hn : l.Nodup) (hpos : ∀ v ∈ l, 1 ≤ v)
    (hclosed : ∀ v ∈ l, v ≠ 1 → v - 1 ∈ l) : Contiguous l := by
  -- going down from a number of the list never leaves it
  have down : ∀ (d : ℕ) (v : ℤ), v ∈ l → 1 ≤ v - d → v - d ∈ l := by
    intro d
    induction d with
    | zero =>
      intro v hv _
      simpa using hv
    | succ d ih =>
      intro v hv hd
      have hvd := ih v hv (by omega)
      have := hclosed _ hvd (by omega)
      rwa [Nat.cast_succ, ← sub_sub]
  have hsub : l.toFinset ⊆ Finset.Icc 1 (l.length : ℤ) := fun v hv => by
    rw [List.mem_toFinset] at hv
    have hIcc : Finset.Icc 1 v ⊆ l.toFinset := fun u hu => by
      rw [Finset.mem_Icc] at hu
      have := down (v - u).toNat v hv (by omega)
      rw [List.mem_toFinset]
      rwa [show v - ((v - u).toNat : ℤ) = u by omega] at this
    have hcard := Finset.card_le_card hIcc
    rw [Int.card_Icc, List.toFinset_card_of_nodup hn] at hcard
    have := hpos v hv
    exact Finset.mem_Icc.2 ⟨this, by omega⟩
  have heq : l.toFinset = Finset.Icc 1 (l.length : ℤ) := by
    refine Finset.eq_of_subset_of_card_le hsub ?_
    rw [Int.card_Icc, List.toFinset_card_of_nodup hn]
    omega
  refine (List.perm_ext_iff_of_nodup hn ?_).2 fun v => ?_
  · exact List.nodup_range.map fun i j hij => by simpa using hij
  · rw [← List.mem_toFinset, heq, Finset.mem_Icc, List.mem_map]
    constructor
    · intro hv
      exact ⟨(v - 1).toNat, List.mem_range.2 (by omega), by omega⟩
    · rintro ⟨i, hi, rfl⟩
      have := List.mem_range.1 hi
      omega
