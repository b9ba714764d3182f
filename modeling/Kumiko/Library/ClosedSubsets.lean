import Mathlib.Data.Finset.Card
import Mathlib.Data.Set.Lattice

/-!
# Closed subsets

A set is closed when it holds what its members require. The greatest closed subset of a set
(`isGreatest_greatest`) grows with it. Where no member requires itself, by any number of steps, ranks fall with
each step (`rank_lt`), so that a search along the requirements ends.
-/

namespace ClosedSubsets

variable {α : Type*} {requires : α → Set α} {base base' s : Set α} {a b : α}

def Closed (requires : α → Set α) (s : Set α) : Prop := ∀ a ∈ s, requires a ⊆ s

/-- The closed subsets of a set. -/
def closedIn (requires : α → Set α) (base : Set α) : Set (Set α) := {s | s ⊆ base ∧ Closed requires s}

/-- The union of all closed subsets. -/
def greatest (requires : α → Set α) (base : Set α) : Set α := ⋃₀ closedIn requires base

theorem closed_greatest : Closed requires (greatest requires base) := by
  rintro a ⟨s, hs, ha⟩
  exact (hs.2 a ha).trans (Set.subset_sUnion_of_mem hs)

theorem greatest_subset : greatest requires base ⊆ base := Set.sUnion_subset fun _ hs => hs.1

theorem subset_greatest (hs : s ⊆ base) (hclosed : Closed requires s) : s ⊆ greatest requires base :=
  Set.subset_sUnion_of_mem ⟨hs, hclosed⟩

theorem isGreatest_greatest : IsGreatest (closedIn requires base) (greatest requires base) :=
  ⟨⟨greatest_subset, closed_greatest⟩, fun _ hs => subset_greatest hs.1 hs.2⟩

theorem greatest_mono (h : base ⊆ base') : greatest requires base ⊆ greatest requires base' :=
  subset_greatest (greatest_subset.trans h) closed_greatest

/-- A member of the set is one of the greatest closed subset if all that it requires is. -/
theorem mem_greatest_iff : a ∈ greatest requires base ↔ a ∈ base ∧ requires a ⊆ greatest requires base := by
  refine ⟨fun ha => ⟨greatest_subset ha, closed_greatest a ha⟩, fun ⟨ha, hrequires⟩ => ?_⟩
  have hclosed : Closed requires (insert a (greatest requires base)) := by
    rintro b (rfl | hb)
    · exact hrequires.trans (Set.subset_insert _ _)
    · exact (closed_greatest b hb).trans (Set.subset_insert _ _)
  exact subset_greatest (Set.insert_subset ha greatest_subset) hclosed (Set.mem_insert a _)

/-- A closed set between the greatest closed subset and the set itself is the greatest. -/
theorem eq_greatest (hle : greatest requires base ⊆ s) (hs : s ⊆ base) (hclosed : Closed requires s) :
    s = greatest requires base :=
  Set.Subset.antisymm (subset_greatest hs hclosed) hle

/-! ## Ranks -/

section Ranks

open Classical in
/-- The number of members of a finite set that are reached from a member. -/
noncomputable def rank (requires : α → Set α) (univ : Finset α) (a : α) : ℕ :=
  (univ.filter fun b => Relation.TransGen (fun x y => y ∈ requires x) a b).card

theorem rank_le (univ : Finset α) (a : α) : rank requires univ a ≤ univ.card := by
  classical exact Finset.card_filter_le _ _

/-- What is required and not required by itself has a smaller rank. -/
theorem rank_lt {univ : Finset α} (hb : b ∈ univ) (hrequires : b ∈ requires a)
    (hacyclic : ¬ Relation.TransGen (fun x y => y ∈ requires x) b b) :
    rank requires univ b < rank requires univ a := by
  classical
  refine Finset.card_lt_card (Finset.ssubset_iff_of_subset ?_ |>.2 ⟨b, ?_, ?_⟩)
  · intro c hc
    rw [Finset.mem_filter] at hc ⊢
    exact ⟨hc.1, .head hrequires hc.2⟩
  · exact Finset.mem_filter.2 ⟨hb, .single hrequires⟩
  · exact fun hself => hacyclic (Finset.mem_filter.1 hself).2

/-- Where some rank falls with each step, nothing requires itself. -/
theorem not_transGen_self {height : α → ℕ} (h : ∀ a, ∀ b ∈ requires a, height b < height a) (a : α) :
    ¬ Relation.TransGen (fun x y => y ∈ requires x) a a := by
  have hfalls : ∀ b, Relation.TransGen (fun x y => y ∈ requires x) a b → height b < height a := by
    intro b hb
    induction hb with
    | single hrequires => exact h _ _ hrequires
    | tail _ hrequires ih => exact (h _ _ hrequires).trans ih
  exact fun hself => absurd (hfalls a hself) (Nat.lt_irrefl _)

end Ranks

end ClosedSubsets
