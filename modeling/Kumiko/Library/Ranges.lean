import Mathlib.Order.Lattice
import Mathlib.Data.List.Basic
import Mathlib.Data.List.Pairwise

/-!
# Lists of closed ranges

A type of ranges (`Span`) has a lower and an upper end in a linear order. A list denotes the points it covers
(`Covers`) and is ordered when every range is nonempty and lies before the next. Ordered lists are closed under
replacing each range by an ordered list inside it and under appending one that lies behind (`Ordered.flatMap`,
`Ordered.append`).
-/

/-- A type whose values have a lower and an upper end. -/
class Span (ρ : Type*) (β : outParam Type*) where
  /-- The lower end, included. -/
  lo : ρ → β
  /-- The upper end, included. -/
  hi : ρ → β

namespace Span

variable {ρ β : Type*} [LinearOrder β] [Span ρ β] {r r' a b : ρ} {rs ss : List ρ} {x : β}

/-- The point lies in the range. -/
def Mem (r : ρ) (x : β) : Prop := lo r ≤ x ∧ x ≤ hi r

instance (r : ρ) (x : β) : Decidable (Mem r x) := inferInstanceAs (Decidable (_ ∧ _))

/-- The point lies in some range of the list. -/
def Covers (rs : List ρ) (x : β) : Prop := ∃ r ∈ rs, Mem r x

instance (rs : List ρ) (x : β) : Decidable (Covers rs x) := inferInstanceAs (Decidable (∃ r ∈ rs, _))

/-- The first range ends before the second one begins. -/
def Before (a b : ρ) : Prop := hi a < lo b

instance (a b : ρ) : Decidable (Before a b) := inferInstanceAs (Decidable (_ < _))

/-- Nonempty ranges, each before all that follow: sorted and pairwise disjoint. -/
structure Ordered (rs : List ρ) : Prop where
  /-- No range is empty. -/
  nonempty : ∀ r ∈ rs, lo r ≤ hi r
  /-- Each range ends before every later one begins. -/
  before : rs.Pairwise Before

@[simp] theorem covers_nil : ¬ Covers ([] : List ρ) x := fun ⟨_, h, _⟩ => nomatch h

@[simp] theorem covers_cons : Covers (r :: rs) x ↔ Mem r x ∨ Covers rs x := by simp [Covers]

@[simp] theorem covers_append : Covers (rs ++ ss) x ↔ Covers rs x ∨ Covers ss x := by
  simp [Covers, or_and_right, exists_or]

theorem covers_flatMap {τ : Type*} {ts : List τ} {f : τ → List ρ} :
    Covers (ts.flatMap f) x ↔ ∃ t ∈ ts, Covers (f t) x := by
  simp only [Covers, List.mem_flatMap]
  constructor
  · rintro ⟨r, ⟨t, ht, hr⟩, hx⟩
    exact ⟨t, ht, r, hr, hx⟩
  · rintro ⟨t, ht, r, hr, hx⟩
    exact ⟨r, ⟨t, ht, hr⟩, hx⟩

@[simp] theorem ordered_nil : Ordered ([] : List ρ) := ⟨by simp, .nil⟩

theorem ordered_cons :
    Ordered (r :: rs) ↔ lo r ≤ hi r ∧ (∀ s ∈ rs, Before r s) ∧ Ordered rs := by
  constructor
  · rintro ⟨h₁, h₂⟩
    rw [List.pairwise_cons] at h₂
    exact ⟨h₁ r (.head _), h₂.1, fun s hs => h₁ s (.tail _ hs), h₂.2⟩
  · rintro ⟨h₁, h₂, h₃⟩
    refine ⟨fun s hs => ?_, List.pairwise_cons.2 ⟨h₂, h₃.before⟩⟩
    cases hs with
    | head => exact h₁
    | tail _ hs => exact h₃.nonempty s hs

theorem ordered_singleton (h : lo r ≤ hi r) : Ordered [r] := ordered_cons.2 ⟨h, by simp, ordered_nil⟩

/-- Two ordered lists, the first before the second. -/
theorem Ordered.append (h₁ : Ordered rs) (h₂ : Ordered ss) (h : ∀ r ∈ rs, ∀ s ∈ ss, Before r s) :
    Ordered (rs ++ ss) := by
  refine ⟨fun r hr => ?_, List.pairwise_append.2 ⟨h₁.before, h₂.before, h⟩⟩
  cases List.mem_append.1 hr with
  | inl hr => exact h₁.nonempty r hr
  | inr hr => exact h₂.nonempty r hr

theorem Ordered.sublist (h : Ordered ss) (hs : rs.Sublist ss) : Ordered rs :=
  ⟨fun r hr => h.nonempty r (hs.subset hr), h.before.sublist hs⟩

/-- Every range of an ordered list is replaced by an ordered list inside it. -/
theorem Ordered.flatMap {τ : Type*} [Span τ β] {f : ρ → List τ} (h : Ordered rs)
    (hf : ∀ r ∈ rs, Ordered (f r)) (hin : ∀ r ∈ rs, ∀ t ∈ f r, lo r ≤ lo t ∧ hi t ≤ hi r) :
    Ordered (rs.flatMap f) := by
  induction rs with
  | nil => exact ordered_nil
  | cons r rs ih =>
    obtain ⟨_, hb, h⟩ := ordered_cons.1 h
    rw [List.flatMap_cons]
    refine (hf r (.head _)).append
      (ih h (fun s hs => hf s (.tail _ hs)) (fun s hs => hin s (.tail _ hs))) ?_
    intro t ht u hu
    obtain ⟨s, hs, hu⟩ := List.mem_flatMap.1 hu
    have h₁ := (hin r (.head _) t ht).2
    have h₂ := (hin s (.tail _ hs) u hu).1
    exact (h₁.trans_lt (hb s hs)).trans_le h₂

/-- The two ranges do not overlap. -/
def Apart (a b : ρ) : Prop := Before a b ∨ Before b a

theorem Apart.symm (h : Apart a b) : Apart b a := Or.symm h

/-- A point lies in at most one of the ranges that do not overlap. -/
theorem eq_of_mem_of_mem (h : rs.Pairwise Apart) (hr : r ∈ rs) (hr' : r' ∈ rs) (hx : Mem r x)
    (hx' : Mem r' x) : r = r' := by
  have : Std.Symm (Apart (ρ := ρ)) := ⟨fun _ _ => Apart.symm⟩
  by_contra hne
  rcases h.forall hr hr' hne with hb | hb
  · exact absurd (hx'.1.trans hx.2) (not_le.2 hb)
  · exact absurd (hx.1.trans hx'.2) (not_le.2 hb)

theorem Ordered.apart (h : Ordered rs) : rs.Pairwise Apart := h.before.imp Or.inl

/-- Nonempty ranges that do not overlap are ordered once they are sorted by their lower ends. -/
theorem ordered_of_sorted (hn : ∀ r ∈ rs, lo r ≤ hi r) (ha : rs.Pairwise Apart)
    (hs : rs.Pairwise fun a b => lo a ≤ lo b) : Ordered rs := by
  refine ⟨hn, ?_⟩
  induction rs with
  | nil => exact .nil
  | cons r rs ih =>
    rw [List.pairwise_cons] at ha hs ⊢
    refine ⟨fun s hmem => ?_, ih (fun s h => hn s (.tail _ h)) ha.2 hs.2⟩
    cases ha.1 s hmem with
    | inl h => exact h
    | inr h =>
      have h₁ := hn s (.tail _ hmem)
      have h₂ := hs.1 s hmem
      exact absurd (h₂.trans h₁) (not_le.2 h)

end Span
