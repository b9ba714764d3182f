import Kumiko.EventStore.Log
import Kumiko.Pipeline.PendingGapRanges

/-!
# The reads of a turn

The two reads of a turn (`db/queries/event-store.ts`): its fetch, which joins the pending ranges and the ids
above the cursor under two limits, and the tenants whose pending events a capped fetch left out. On an ordered
gap list below the cursor the fetch is two prefixes (`selectPendingAndNewEventRows_eq`).
-/

namespace Kumiko

open Span

/-- `ORDER BY "id" ASC`. -/
def sortById (rows : List EventRow) : List EventRow := rows.insertionSort fun a b => a.id ≤ b.id

/-- `WHERE "id" BETWEEN range.from AND range.to`. -/
def rowsInRange (rows : List EventRow) (range : PendingGapEntry) : List EventRow :=
  rows.filter fun r => Mem range r.id

/-- The rows a turn fetches, from the rows its snapshot sees. Reference:
`selectPendingAndNewEventRows`. -/
def selectPendingAndNewEventRows (visible : List EventRow) (cursor : ℕ)
    (pendingRanges : List PendingGapEntry) (batchSize pendingLimit : ℕ) : List EventRow :=
  let newer := (visible.filter fun r => r.id > cursor).take batchSize
  if pendingRanges.isEmpty then newer
  else
    let pending := (sortById (pendingRanges.flatMap fun g =>
      (rowsInRange visible g).take pendingLimit)).take pendingLimit
    (sortById (pending ++ newer)).take batchSize

/-- The tenants with an event in the ranges above an id. Reference:
`selectTenantIdsInRangesAbove`. -/
def selectTenantIdsInRangesAbove (visible : List EventRow) (pendingRanges : List PendingGapEntry)
    (aboveId : ℕ) : List String :=
  ((pendingRanges.flatMap fun g => visible.filter fun r =>
    max g.fromId (aboveId + 1) ≤ r.id && r.id ≤ g.toId).map (·.tenantId)).dedup

section
variable {rows visible : List EventRow} {gaps : List PendingGapEntry} {g : PendingGapEntry}
  {cursor batchSize pendingLimit n : ℕ} {p q : EventRow → Bool}

theorem sortById_eq (h : rows.Pairwise fun a b => a.id < b.id) : sortById rows = rows :=
  (h.imp Nat.le_of_lt).insertionSort_eq

/-- Two filters of an ascending list whose rows do not interleave make up the filter by either. -/
theorem filter_or_eq_append (hs : rows.Pairwise fun a b => a.id < b.id)
    (h : ∀ a ∈ rows, ∀ b ∈ rows, p a = true → q b = true → a.id < b.id) :
    (rows.filter fun r => p r || q r) = rows.filter p ++ rows.filter q := by
  induction rows with
  | nil => rfl
  | cons r rows ih =>
    have ih := ih (List.pairwise_cons.1 hs).2 fun a ha b hb => h a (.tail _ ha) b (.tail _ hb)
    cases hp : p r with
    | true =>
      have hq : q r = false := by
        by_contra hq
        exact Nat.lt_irrefl _ (h r (.head _) r (.head _) hp (by simpa using hq))
      simp [hp, hq, ih]
    | false =>
      cases hq : q r with
      | false => simp [hp, hq, ih]
      | true =>
        -- nothing behind `r` can satisfy `p`
        have : rows.filter p = [] := by
          rw [List.filter_eq_nil_iff]
          intro a ha hpa
          have h₁ := h a (.tail _ ha) r (.head _) hpa hq
          have h₂ := (List.pairwise_cons.1 hs).1 a ha
          omega
        simp [hp, hq, ih, this]

/-- The rows of ordered ranges, each range cut off, and the rows the ranges cover have the same
prefix. -/
theorem take_flatMap_rowsInRange (hs : visible.Pairwise fun a b => a.id < b.id)
    (ho : Ordered gaps) :
    (gaps.flatMap fun g => (rowsInRange visible g).take n).take n =
      (visible.filter fun r => Covers gaps r.id).take n := by
  induction gaps with
  | nil => simp
  | cons g gaps ih =>
    obtain ⟨_, hb, ho⟩ := ordered_cons.1 ho
    have hsplit : (visible.filter fun r => Covers (g :: gaps) r.id) =
        rowsInRange visible g ++ visible.filter fun r => Covers gaps r.id := by
      rw [rowsInRange, ← filter_or_eq_append hs]
      · exact List.filter_congr fun r _ => by simp
      · intro a _ b _ ha hb'
        obtain ⟨g', hg', hm⟩ := of_decide_eq_true hb'
        have := hb g' hg'
        have ha := of_decide_eq_true ha
        simp only [Before, span_lo, span_hi, mem_entry] at this ha hm
        omega
    have ih := congrArg (List.take (n - (rowsInRange visible g).length)) (ih ho)
    rw [List.take_take, List.take_take, Nat.min_eq_left (Nat.sub_le ..)] at ih
    rw [List.flatMap_cons, hsplit, List.take_append, List.take_append, List.take_take, Nat.min_self,
      List.length_take]
    rcases Nat.le_total n (rowsInRange visible g).length with hle | hle
    · rw [Nat.min_eq_left hle, Nat.sub_self, Nat.sub_eq_zero_of_le hle]
      simp
    · rw [Nat.min_eq_right hle, ih]

/-- The rows of ordered ranges ascend. -/
theorem flatMap_rowsInRange_sorted (hs : visible.Pairwise fun a b => a.id < b.id)
    (ho : Ordered gaps) :
    (gaps.flatMap fun g => (rowsInRange visible g).take n).Pairwise fun a b => a.id < b.id := by
  induction gaps with
  | nil => exact .nil
  | cons g gaps ih =>
    obtain ⟨_, hbef, ho⟩ := ordered_cons.1 ho
    rw [List.flatMap_cons]
    refine List.pairwise_append.2 ⟨hs.sublist
      ((List.take_sublist _ _).trans List.filter_sublist), ih ho, fun a ha b hb => ?_⟩
    obtain ⟨g', hg', hb⟩ := List.mem_flatMap.1 hb
    have hm := of_decide_eq_true (List.mem_filter.1 (List.mem_of_mem_take ha)).2
    have hm' := of_decide_eq_true (List.mem_filter.1 (List.mem_of_mem_take hb)).2
    have := hbef g' hg'
    simp only [Before, span_lo, span_hi, mem_entry] at this hm hm'
    omega

/-- The pending rows of a fetch. -/
def pendingPart (visible : List EventRow) (gaps : List PendingGapEntry) (pendingLimit : ℕ) :
    List EventRow :=
  (visible.filter fun r => Covers gaps r.id).take pendingLimit

/-- The new rows of a fetch that has room for `n` of them. -/
def newPart (visible : List EventRow) (cursor n : ℕ) : List EventRow :=
  (visible.filter fun r => r.id > cursor).take n

/-- The pending rows come first and take at most the pending limit, the new rows fill up. -/
theorem selectPendingAndNewEventRows_eq (hs : visible.Pairwise fun a b => a.id < b.id)
    (ho : Ordered gaps) (hb : ∀ g ∈ gaps, g.toId ≤ cursor)
    (hl : pendingLimit ≤ batchSize ∨ gaps = []) :
    selectPendingAndNewEventRows visible cursor gaps batchSize pendingLimit =
      pendingPart visible gaps pendingLimit ++
        newPart visible cursor (batchSize - (pendingPart visible gaps pendingLimit).length) := by
  unfold selectPendingAndNewEventRows
  dsimp only
  split
  · rename_i he
    rw [List.isEmpty_iff] at he
    subst he
    simp [pendingPart, newPart]
  · rename_i he
    have hl := hl.resolve_right fun h => he (h ▸ rfl)
    have hpend : (sortById (gaps.flatMap fun g => (rowsInRange visible g).take pendingLimit)).take
        pendingLimit = pendingPart visible gaps pendingLimit := by
      rw [sortById_eq (flatMap_rowsInRange_sorted hs ho), take_flatMap_rowsInRange hs ho, pendingPart]
    rw [hpend]
    have hjoin : (pendingPart visible gaps pendingLimit ++
        (visible.filter fun r => r.id > cursor).take batchSize).Pairwise
        fun a b => a.id < b.id := by
      refine List.pairwise_append.2 ⟨hs.sublist
        ((List.take_sublist _ _).trans List.filter_sublist), hs.sublist
        ((List.take_sublist _ _).trans List.filter_sublist), fun a ha b hb' => ?_⟩
      obtain ⟨g, hg, hm⟩ := of_decide_eq_true (List.mem_filter.1 (List.mem_of_mem_take ha)).2
      have hm' := of_decide_eq_true (List.mem_filter.1 (List.mem_of_mem_take hb')).2
      have := hb g hg
      rw [mem_entry] at hm
      omega
    rw [sortById_eq hjoin, List.take_append, newPart, List.take_take,
      Nat.min_eq_left (Nat.sub_le ..), List.take_of_length_le]
    exact (List.length_take_le _ _).trans hl

/-- What a prefix of an ascending list leaves out lies above all of it, and the prefix is full. -/
theorem left_out_of_take (hs : rows.Pairwise fun a b => a.id < b.id) {r : EventRow} (hr : r ∈ rows)
    (hn : r ∉ rows.take n) : (rows.take n).length = n ∧ ∀ e ∈ rows.take n, e.id < r.id := by
  have hd : r ∈ rows.drop n := by
    rw [← List.take_append_drop n rows, List.mem_append] at hr
    exact hr.resolve_left hn
  have hlt : n < rows.length := by
    have := List.length_pos_of_mem hd
    rw [List.length_drop] at this
    omega
  rw [← List.take_append_drop n rows, List.pairwise_append] at hs
  exact ⟨by rw [List.length_take]; omega, fun e he => hs.2.2 e he r hd⟩

end

end Kumiko
