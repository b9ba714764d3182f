import Kumiko.Library.Ranges
import Mathlib.Data.List.Sort
import Mathlib.Data.List.TakeWhile

/-!
# The pending gaps of a consumer

`pipeline/pending-gap-ranges.ts`: the ids below a consumer's cursor that it has not seen, as closed ranges with
the snapshot bound they were recorded with. Every operation keeps a gap list ordered (`Span.Ordered`), and a
bound is only ever raised (`CoversBelow`).
-/

namespace Kumiko

open Span

/-- A range of ids below the cursor that the consumer still owes. Reference: `PendingGapEntry`
(`pipeline/event-consumer-state.ts`). -/
structure PendingGapEntry where
  /-- The first id, `from` in the source. -/
  fromId : ℕ
  /-- The last id, `to` in the source. -/
  toId : ℕ
  /-- The `xmax` of the snapshot the range was recorded with. -/
  xmax : ℕ
  deriving DecidableEq

instance : Span PendingGapEntry ℕ := ⟨PendingGapEntry.fromId, PendingGapEntry.toId⟩

@[simp] theorem span_lo (g : PendingGapEntry) : lo g = g.fromId := rfl
@[simp] theorem span_hi (g : PendingGapEntry) : hi g = g.toId := rfl

theorem mem_entry {g : PendingGapEntry} {id : ℕ} : Mem g id ↔ g.fromId ≤ id ∧ id ≤ g.toId := .rfl

/-- Reference: `rangeContainsId`. -/
def rangeContainsId (range : PendingGapEntry) (id : ℕ) : Bool :=
  id ≥ range.fromId && id ≤ range.toId

/-- Reference: `isRangeFullyCoveredByFetch`. -/
def isRangeFullyCoveredByFetch (range : PendingGapEntry) (truncated : Bool)
    (maxFetchedId : Option ℕ) : Bool :=
  if !truncated then true
  else match maxFetchedId with
    | none => false
    | some m => range.toId < m

/-- The test inside the loop of `partitionBurntGaps`. -/
def isBurnt (fetchedIds : List ℕ) (truncated : Bool) (xminNow : ℕ) (gap : PendingGapEntry) :
    Bool :=
  !fetchedIds.any (rangeContainsId gap) &&
    isRangeFullyCoveredByFetch gap truncated fetchedIds.getLast? &&
    gap.xmax ≤ xminNow

/-- The burnt and the surviving gaps. Reference: `partitionBurntGaps`. -/
def partitionBurntGaps (gaps : List PendingGapEntry) (fetchedIds : List ℕ) (truncated : Bool)
    (xminNow : ℕ) : List PendingGapEntry × List PendingGapEntry :=
  (gaps.filter (isBurnt fetchedIds truncated xminNow),
    gaps.filter fun gap => !isBurnt fetchedIds truncated xminNow gap)

/-- The loop of `splitRangeExcludingIds` over the sorted ids inside the range. -/
def splitAtIds (toId xmax : ℕ) : ℕ → List ℕ → List PendingGapEntry
  | cursor, [] => if cursor ≤ toId then [⟨cursor, toId, xmax⟩] else []
  | cursor, id :: ids =>
    if id > cursor then ⟨cursor, id - 1, xmax⟩ :: splitAtIds toId xmax (id + 1) ids
    else splitAtIds toId xmax (id + 1) ids

/-- Carves the ids out of the range. Reference: `splitRangeExcludingIds`. -/
def splitRangeExcludingIds (range : PendingGapEntry) (excludeIds : List ℕ) :
    List PendingGapEntry :=
  let inRange := (excludeIds.filter fun id => id ≥ range.fromId && id ≤ range.toId).insertionSort
    (· ≤ ·)
  if inRange.isEmpty then [range]
  else splitAtIds range.toId range.xmax range.fromId inRange

/-- The same carve-out for many ranges and one sorted id list; the source's forward pointer over
the ids is the list that is left. Reference: `subtractSortedIdsFromRanges`. -/
def subtractSortedIdsFromRanges : List PendingGapEntry → List ℕ → List PendingGapEntry
  | [], _ => []
  | range :: ranges, sortedIds =>
    let fromHere := sortedIds.dropWhile (· < range.fromId)
    splitRangeExcludingIds range (fromHere.takeWhile (· ≤ range.toId)) ++
      subtractSortedIdsFromRanges ranges (fromHere.dropWhile (· ≤ range.toId))

/-- Drops what lies at or above the cursor. Reference: `capPendingGapsBelowCursor`. -/
def capPendingGapsBelowCursor (gaps : List PendingGapEntry) (cursor : ℕ) : List PendingGapEntry :=
  if cursor = 0 then []
  else gaps.filterMap fun gap =>
    if gap.fromId ≥ cursor then none
    else some { gap with toId := if gap.toId ≥ cursor then cursor - 1 else gap.toId }

/-- The loop of `mergeContiguousGapRanges` behind the range it pushed last. -/
def mergeAfter : PendingGapEntry → List PendingGapEntry → List PendingGapEntry
  | last, [] => [last]
  | last, gap :: gaps =>
    if last.toId + 1 = gap.fromId then
      mergeAfter ⟨last.fromId, gap.toId, if gap.xmax > last.xmax then gap.xmax else last.xmax⟩ gaps
    else last :: mergeAfter gap gaps

/-- Sorts the ranges and joins those that touch. Reference: `mergeContiguousGapRanges`. -/
def mergeContiguousGapRanges (gaps : List PendingGapEntry) : List PendingGapEntry :=
  match gaps.insertionSort (fun a b => a.fromId ≤ b.fromId) with
  | [] => []
  | gap :: rest => mergeAfter gap rest

/-- Some range of the list covers the id, with a bound of at most `b`. -/
def CoversBelow (gaps : List PendingGapEntry) (id b : ℕ) : Prop :=
  ∃ g ∈ gaps, Mem g id ∧ g.xmax ≤ b

/-! ## Burnt gaps -/

section
variable {gaps : List PendingGapEntry} {g : PendingGapEntry} {fetchedIds : List ℕ}
  {truncated : Bool} {xminNow id : ℕ}

@[simp] theorem rangeContainsId_iff : rangeContainsId g id = true ↔ Mem g id := by
  simp [rangeContainsId, mem_entry]

/-- A gap is burnt when no fetched id lies in it, the fetch has passed it and its bound has been
reached. -/
theorem isBurnt_iff : isBurnt fetchedIds truncated xminNow g = true ↔
    (∀ id ∈ fetchedIds, ¬ Mem g id) ∧
    (truncated = true → ∃ m, fetchedIds.getLast? = some m ∧ g.toId < m) ∧ g.xmax ≤ xminNow := by
  simp only [isBurnt, isRangeFullyCoveredByFetch, Bool.and_eq_true, Bool.not_eq_true',
    List.any_eq_false, rangeContainsId_iff, decide_eq_true_eq, and_assoc]
  refine and_congr .rfl (and_congr ?_ .rfl)
  cases truncated <;> cases fetchedIds.getLast? <;> simp

theorem mem_burnt : g ∈ (partitionBurntGaps gaps fetchedIds truncated xminNow).1 ↔
    g ∈ gaps ∧ isBurnt fetchedIds truncated xminNow g = true := by
  simp [partitionBurntGaps]

theorem mem_surviving : g ∈ (partitionBurntGaps gaps fetchedIds truncated xminNow).2 ↔
    g ∈ gaps ∧ isBurnt fetchedIds truncated xminNow g = false := by
  simp [partitionBurntGaps]

theorem surviving_sublist :
    (partitionBurntGaps gaps fetchedIds truncated xminNow).2.Sublist gaps :=
  List.filter_sublist

/-- Every gap is burnt or survives. -/
theorem covers_burnt_or_surviving (h : Covers gaps id) :
    Covers (partitionBurntGaps gaps fetchedIds truncated xminNow).1 id ∨
      Covers (partitionBurntGaps gaps fetchedIds truncated xminNow).2 id := by
  obtain ⟨g, hg, hid⟩ := h
  cases hb : isBurnt fetchedIds truncated xminNow g with
  | true => exact .inl ⟨g, mem_burnt.2 ⟨hg, hb⟩, hid⟩
  | false => exact .inr ⟨g, mem_surviving.2 ⟨hg, hb⟩, hid⟩

end

/-! ## Splitting a range -/

section
variable {g p : PendingGapEntry} {gaps : List PendingGapEntry} {ids : List ℕ} {id : ℕ}

theorem splitAtIds_spec (toId xmax : ℕ) : ∀ (ids : List ℕ) (cursor : ℕ), ids.Pairwise (· ≤ ·) →
    (∀ id ∈ ids, cursor ≤ id + 1 ∧ id ≤ toId) →
    Ordered (splitAtIds toId xmax cursor ids) ∧
    (∀ p ∈ splitAtIds toId xmax cursor ids, cursor ≤ p.fromId ∧ p.toId ≤ toId ∧ p.xmax = xmax) ∧
    ∀ id, Covers (splitAtIds toId xmax cursor ids) id ↔ cursor ≤ id ∧ id ≤ toId ∧ id ∉ ids
  | [], cursor, _, _ => by
    unfold splitAtIds
    split
    · rename_i h
      exact ⟨ordered_singleton h, by simp, by simp [mem_entry]⟩
    · rename_i h
      refine ⟨ordered_nil, by simp, fun id => ?_⟩
      simp only [covers_nil, List.not_mem_nil, not_false_eq_true, and_true, false_iff]
      omega
  | i :: ids, cursor, hs, hb => by
    rw [List.pairwise_cons] at hs
    have hi := hb i (.head _)
    obtain ⟨ho, hw, hc⟩ := splitAtIds_spec toId xmax ids (i + 1) hs.2 fun id hid =>
      ⟨Nat.succ_le_succ (hs.1 id hid), (hb id (.tail _ hid)).2⟩
    have hni : ∀ id, id < i → id ∉ ids := fun id hlt hm => by
      have := hs.1 id hm
      omega
    unfold splitAtIds
    split
    · rename_i hgt
      refine ⟨ordered_cons.2 ⟨?_, fun q hq => ?_, ho⟩, ?_, fun id => ?_⟩
      · simp only [span_lo, span_hi]; omega
      · have := (hw q hq).1
        simp only [Before, span_lo, span_hi]; omega
      · intro q hq
        cases hq with
        | head => exact ⟨le_refl _, by dsimp only; omega, rfl⟩
        | tail _ hq =>
          obtain ⟨h₁, h₂, h₃⟩ := hw q hq
          exact ⟨by omega, h₂, h₃⟩
      · rw [covers_cons, hc, mem_entry, List.mem_cons]
        have := hni id
        by_cases hm : id ∈ ids <;> simp only [hm, not_true_eq_false, not_false_eq_true, and_false,
          and_true, or_true, or_false, iff_false, imp_false] at this ⊢ <;> omega
    · refine ⟨ho, fun q hq => ?_, fun id => ?_⟩
      · obtain ⟨h₁, h₂, h₃⟩ := hw q hq
        exact ⟨by omega, h₂, h₃⟩
      · rw [hc, List.mem_cons]
        by_cases hm : id ∈ ids <;> simp only [hm, not_true_eq_false, not_false_eq_true, and_false,
          and_true, or_true, or_false]
        omega

/-- The pieces of a nonempty range are ordered, lie inside it with its bound, and cover what was
not carved out. -/
theorem splitRangeExcludingIds_spec (hg : g.fromId ≤ g.toId) :
    Ordered (splitRangeExcludingIds g ids) ∧
    (∀ p ∈ splitRangeExcludingIds g ids,
      g.fromId ≤ p.fromId ∧ p.toId ≤ g.toId ∧ p.xmax = g.xmax) ∧
    ∀ id, Covers (splitRangeExcludingIds g ids) id ↔ Mem g id ∧ id ∉ ids := by
  unfold splitRangeExcludingIds
  set inRange := (ids.filter fun id => id ≥ g.fromId && id ≤ g.toId).insertionSort (· ≤ ·)
    with hin
  have hmem : ∀ id, id ∈ inRange ↔ id ∈ ids ∧ Mem g id := fun id => by
    simp [hin, List.mem_insertionSort, mem_entry]
  dsimp only
  split
  · rename_i he
    rw [List.isEmpty_iff] at he
    refine ⟨ordered_singleton hg, by simp, fun id => ?_⟩
    have := hmem id
    rw [he] at this
    simp only [covers_cons, covers_nil, or_false]
    exact ⟨fun h => ⟨h, fun hi => List.not_mem_nil (this.2 ⟨hi, h⟩)⟩, And.left⟩
  · obtain ⟨ho, hw, hc⟩ := splitAtIds_spec g.toId g.xmax inRange g.fromId
      (List.pairwise_insertionSort (· ≤ ·) _) fun id hid => by
        have := ((hmem id).1 hid).2
        rw [mem_entry] at this
        omega
    refine ⟨ho, hw, fun id => ?_⟩
    rw [hc, hmem, mem_entry]
    tauto

/-- Carving ids out of every range of an ordered list. -/
theorem ordered_splitRanges (h : Ordered gaps) :
    Ordered (gaps.flatMap fun gap => splitRangeExcludingIds gap ids) :=
  h.flatMap (fun g hg => (splitRangeExcludingIds_spec (h.nonempty g hg)).1) fun g hg p hp =>
    have ⟨h₁, h₂, _⟩ := (splitRangeExcludingIds_spec (h.nonempty g hg)).2.1 p hp
    ⟨h₁, h₂⟩

theorem covers_splitRanges (h : Ordered gaps) :
    Covers (gaps.flatMap fun gap => splitRangeExcludingIds gap ids) id ↔
      Covers gaps id ∧ id ∉ ids := by
  rw [covers_flatMap]
  constructor
  · rintro ⟨g, hg, hc⟩
    have := ((splitRangeExcludingIds_spec (h.nonempty g hg)).2.2 id).1 hc
    exact ⟨⟨g, hg, this.1⟩, this.2⟩
  · rintro ⟨⟨g, hg, hm⟩, hid⟩
    exact ⟨g, hg, ((splitRangeExcludingIds_spec (h.nonempty g hg)).2.2 id).2 ⟨hm, hid⟩⟩

/-- A piece lies inside a range of the list and has its bound. -/
theorem mem_splitRanges (h : Ordered gaps)
    (hp : p ∈ gaps.flatMap fun gap => splitRangeExcludingIds gap ids) :
    ∃ g ∈ gaps, g.fromId ≤ p.fromId ∧ p.toId ≤ g.toId ∧ p.xmax = g.xmax := by
  obtain ⟨g, hg, hp⟩ := List.mem_flatMap.1 hp
  exact ⟨g, hg, (splitRangeExcludingIds_spec (h.nonempty g hg)).2.1 p hp⟩

end

/-! ## Merging -/

section
variable {gaps : List PendingGapEntry}

/-- Merging behind a range keeps the order, covers the same ids and only raises bounds. -/
theorem mergeAfter_spec : ∀ {gaps : List PendingGapEntry} {last : PendingGapEntry},
    Ordered (last :: gaps) →
    Ordered (mergeAfter last gaps) ∧ (∀ g ∈ mergeAfter last gaps, last.fromId ≤ g.fromId) ∧
    (∀ id, Covers (mergeAfter last gaps) id ↔ Covers (last :: gaps) id) ∧
    ∀ g ∈ mergeAfter last gaps, ∀ id, Mem g id → CoversBelow (last :: gaps) id g.xmax
  | [], last, h => ⟨h, by simp [mergeAfter], by simp [mergeAfter], fun g hg id hid => by
      simp only [mergeAfter, List.mem_singleton] at hg
      subst hg
      exact ⟨g, .head _, hid, le_refl _⟩⟩
  | gap :: gaps, last, h => by
    obtain ⟨hl, hb, h⟩ := ordered_cons.1 h
    obtain ⟨hg, hb', h'⟩ := ordered_cons.1 h
    simp only [Before, span_lo, span_hi] at hl hb hg hb'
    have hlg := hb gap (.head _)
    unfold mergeAfter
    split
    · -- the two ranges touch: the joined one stands for both
      rename_i htouch
      set j : PendingGapEntry :=
        ⟨last.fromId, gap.toId, if gap.xmax > last.xmax then gap.xmax else last.xmax⟩ with hj
      have hjx : last.xmax ≤ j.xmax ∧ gap.xmax ≤ j.xmax := by
        simp only [hj]; split <;> omega
      have hjm : ∀ id, Mem j id ↔ Mem last id ∨ Mem gap id := fun id => by
        simp only [mem_entry, hj]; omega
      have hjo : Ordered (j :: gaps) := ordered_cons.2 ⟨by simp only [span_lo, span_hi, hj]; omega,
        fun s hs => hb' s hs, h'⟩
      have ⟨h₁, h₂, h₃, h₄⟩ := mergeAfter_spec hjo
      refine ⟨h₁, h₂, fun id => ?_, fun g hg id hid => ?_⟩
      · rw [h₃, covers_cons, covers_cons, covers_cons, hjm, or_assoc]
      · obtain ⟨g', hg', hm, hx⟩ := h₄ g hg id hid
        cases hg' with
        | head =>
          cases (hjm id).1 hm with
          | inl hm => exact ⟨last, .head _, hm, hjx.1.trans hx⟩
          | inr hm => exact ⟨gap, .tail _ (.head _), hm, hjx.2.trans hx⟩
        | tail _ hg' => exact ⟨g', .tail _ (.tail _ hg'), hm, hx⟩
    · have ⟨h₁, h₂, h₃, h₄⟩ := mergeAfter_spec h
      refine ⟨ordered_cons.2 ⟨hl, fun s hs => ?_, h₁⟩, fun g hg => ?_, fun id => ?_,
        fun g hg id hid => ?_⟩
      · have := h₂ s hs
        simp only [Before, span_lo, span_hi]; omega
      · cases hg with
        | head => exact le_refl _
        | tail _ hg => exact le_trans (by omega) (h₂ g hg)
      · rw [covers_cons, h₃, ← covers_cons]
      · cases hg with
        | head => exact ⟨last, .head _, hid, le_refl _⟩
        | tail _ hg =>
          obtain ⟨g', hg', hm, hx⟩ := h₄ g hg id hid
          exact ⟨g', .tail _ hg', hm, hx⟩

/-- Sorting and merging ranges that do not overlap: the result is ordered, covers the same ids,
and no bound is lowered. -/
theorem mergeContiguousGapRanges_spec (gaps : List PendingGapEntry) (hn : ∀ g ∈ gaps, g.fromId ≤ g.toId)
    (ha : gaps.Pairwise Apart) :
    Ordered (mergeContiguousGapRanges gaps) ∧
    (∀ id, Covers (mergeContiguousGapRanges gaps) id ↔ Covers gaps id) ∧
    ∀ g ∈ mergeContiguousGapRanges gaps, ∀ id, Mem g id → CoversBelow gaps id g.xmax := by
  unfold mergeContiguousGapRanges
  set sorted := gaps.insertionSort (fun a b => a.fromId ≤ b.fromId) with hs
  have hperm : sorted.Perm gaps := List.perm_insertionSort _ _
  have ho : Ordered sorted := by
    refine ordered_of_sorted (fun g hg => hn g (hperm.mem_iff.1 hg)) ?_ ?_
    · exact (hperm.pairwise_iff fun h => h.symm).2 ha
    · have : Std.Total fun a b : PendingGapEntry => a.fromId ≤ b.fromId :=
        ⟨fun a b => Nat.le_total _ _⟩
      have : IsTrans PendingGapEntry fun a b => a.fromId ≤ b.fromId :=
        ⟨fun _ _ _ h₁ h₂ => Nat.le_trans h₁ h₂⟩
      exact List.pairwise_insertionSort _ _
  have hcov : ∀ id, Covers sorted id ↔ Covers gaps id := fun id => by
    simp only [Covers, hperm.mem_iff]
  have hbel : ∀ id b, CoversBelow sorted id b → CoversBelow gaps id b := by
    rintro id b ⟨g, hg, h⟩
    exact ⟨g, hperm.mem_iff.1 hg, h⟩
  clear_value sorted
  cases sorted with
  | nil => exact ⟨ordered_nil, hcov, by simp⟩
  | cons g rest =>
    obtain ⟨h₁, -, h₃, h₄⟩ := mergeAfter_spec ho
    exact ⟨h₁, fun id => (h₃ id).trans (hcov id), fun g hg id hid => hbel _ _ (h₄ g hg id hid)⟩

end

/-! ## The hand-over of a rebuild -/

section
variable {g p : PendingGapEntry} {gaps : List PendingGapEntry} {ids ids' : List ℕ} {id cursor : ℕ}

/-- The pieces depend on the ids inside the range only. -/
theorem splitRangeExcludingIds_congr
    (h : (ids.filter fun id => id ≥ g.fromId && id ≤ g.toId) =
      ids'.filter fun id => id ≥ g.fromId && id ≤ g.toId) :
    splitRangeExcludingIds g ids = splitRangeExcludingIds g ids' := by
  simp only [splitRangeExcludingIds, h]

/-- Ids before the range do not matter. -/
theorem splitRangeExcludingIds_dropWhile {q : ℕ → Bool} (h : ∀ id, q id = true → id < g.fromId) :
    splitRangeExcludingIds g (ids.dropWhile q) = splitRangeExcludingIds g ids := by
  refine splitRangeExcludingIds_congr ?_
  conv_rhs => rw [← List.takeWhile_append_dropWhile (p := q) (l := ids), List.filter_append]
  have : (ids.takeWhile q).filter (fun id => id ≥ g.fromId && id ≤ g.toId) = [] := by
    rw [List.filter_eq_nil_iff]
    intro id hid
    have := h id (List.mem_takeWhile_imp hid)
    simp; omega
  rw [this, List.nil_append]

/-- Ids behind the range do not matter. -/
theorem splitRangeExcludingIds_takeWhile (hs : ids.Pairwise (· ≤ ·)) :
    splitRangeExcludingIds g (ids.takeWhile (· ≤ g.toId)) = splitRangeExcludingIds g ids := by
  refine splitRangeExcludingIds_congr ?_
  induction ids with
  | nil => rfl
  | cons i ids ih =>
    rw [List.pairwise_cons] at hs
    rw [List.takeWhile_cons]
    split
    · rw [List.filter_cons, List.filter_cons, ih hs.2]
    · rename_i hi
      rw [List.filter_nil, eq_comm, List.filter_eq_nil_iff]
      intro j hj
      have : i ≤ j := by
        cases hj with
        | head => exact le_refl _
        | tail _ hj => exact hs.1 j hj
      simp at hi ⊢; omega

/-- One forward pass over an ordered list and ascending ids is the carve-out of every range. -/
theorem subtractSortedIdsFromRanges_eq (h : Ordered gaps) (hs : ids.Pairwise (· ≤ ·)) :
    subtractSortedIdsFromRanges gaps ids =
      gaps.flatMap fun gap => splitRangeExcludingIds gap ids := by
  induction gaps generalizing ids with
  | nil => rfl
  | cons g gaps ih =>
    obtain ⟨hg, hb, h⟩ := ordered_cons.1 h
    have hd := hs.sublist (List.dropWhile_sublist (· < g.fromId))
    have hd' := hd.sublist (List.dropWhile_sublist (· ≤ g.toId))
    simp only [subtractSortedIdsFromRanges, List.flatMap_cons]
    rw [splitRangeExcludingIds_takeWhile hd, splitRangeExcludingIds_dropWhile (by simp), ih h hd']
    refine congrArg _ (List.flatMap_congr fun r hr => ?_)
    have hbr := hb r hr
    simp only [Before, span_lo, span_hi] at hg hbr
    rw [splitRangeExcludingIds_dropWhile, splitRangeExcludingIds_dropWhile] <;>
    · intro id hid
      simp only [decide_eq_true_eq] at hid
      omega

theorem mem_capPendingGapsBelowCursor : p ∈ capPendingGapsBelowCursor gaps cursor ↔
    ∃ g ∈ gaps, g.fromId < cursor ∧
      p = { g with toId := if g.toId ≥ cursor then cursor - 1 else g.toId } := by
  unfold capPendingGapsBelowCursor
  split
  · simp_all
  · simp only [List.mem_filterMap]
    refine exists_congr fun g => and_congr_right fun _ => ?_
    split
    · rename_i hge
      simp only [reduceCtorEq, false_iff, not_and]
      exact fun hlt => absurd hlt (Nat.not_lt.2 hge)
    · rename_i hlt
      simp only [Option.some.injEq, eq_comm (a := p), and_iff_right (Nat.not_le.1 hlt)]

/-- Only what lies below the cursor is kept. -/
theorem covers_capPendingGapsBelowCursor :
    Covers (capPendingGapsBelowCursor gaps cursor) id ↔ Covers gaps id ∧ id < cursor := by
  simp only [Covers, mem_capPendingGapsBelowCursor]
  constructor
  · rintro ⟨_, ⟨g, hg, hlt, rfl⟩, hm⟩
    simp only [mem_entry] at hm
    refine ⟨⟨g, hg, ?_⟩, ?_⟩
    · rw [mem_entry]; split at hm <;> omega
    · split at hm <;> omega
  · rintro ⟨⟨g, hg, hm⟩, hlt⟩
    rw [mem_entry] at hm
    refine ⟨_, ⟨g, hg, by omega, rfl⟩, ?_⟩
    simp only [mem_entry]
    split <;> omega

theorem ordered_capPendingGapsBelowCursor (h : Ordered gaps) :
    Ordered (capPendingGapsBelowCursor gaps cursor) := by
  unfold capPendingGapsBelowCursor
  split
  · exact ordered_nil
  · refine ⟨fun p hp => ?_, ?_⟩
    · simp only [List.mem_filterMap] at hp
      obtain ⟨g, hg, hp⟩ := hp
      have := h.nonempty g hg
      split at hp
      · cases hp
      · cases hp
        simp only [span_lo, span_hi] at this ⊢
        split <;> omega
    · refine h.before.filterMap _ fun a b hab c hc d hd => ?_
      simp only [Before, span_lo, span_hi] at hab ⊢
      split at hc <;> cases hc
      split at hd <;> cases hd
      dsimp only
      split <;> omega

end

/-! ## The ids that the operations keep -/

/-- The result covers those covered ids that are kept, is sorted and disjoint, and records no id with a lower bound
than before. -/
structure KeepsIds (gaps result : List PendingGapEntry) (keep : ℕ → Prop) : Prop where
  ordered : Ordered result
  covers : ∀ id, Covers result id ↔ Covers gaps id ∧ keep id
  xmax : ∀ g ∈ gaps, ∀ r ∈ result, ∀ id, Mem g id → Mem r id → g.xmax ≤ r.xmax

section
variable {gaps result : List PendingGapEntry} {g r : PendingGapEntry} {ids fetchedIds : List ℕ} {keep : ℕ → Prop}
  {id cursor xminNow : ℕ} {truncated : Bool}

/-- Where each covered id comes from a range with no greater bound, and the ranges do not overlap, no bound has
been lowered. -/
theorem xmax_le_of_coversBelow (h : gaps.Pairwise Apart)
    (hb : ∀ r ∈ result, ∀ id, Mem r id → CoversBelow gaps id r.xmax) :
    ∀ g ∈ gaps, ∀ r ∈ result, ∀ id, Mem g id → Mem r id → g.xmax ≤ r.xmax := by
  intro g hg r hr id hgid hrid
  obtain ⟨g', hg', hid, hx⟩ := hb r hr id hrid
  obtain rfl := eq_of_mem_of_mem h hg hg' hgid hid
  exact hx

/-- A piece that is judged burnt holds only ids whose bound had been reached before. -/
theorem KeepsIds.xmax_le_of_isBurnt (h : KeepsIds gaps result keep) (hr : r ∈ result)
    (hb : isBurnt fetchedIds truncated xminNow r = true) (hg : g ∈ gaps) (hrid : Mem r id) (hgid : Mem g id) :
    g.xmax ≤ xminNow :=
  (h.xmax g hg r hr id hgid hrid).trans (isBurnt_iff.1 hb).2.2

theorem keepsIds_splitRangeExcludingIds (hg : g.fromId ≤ g.toId) :
    KeepsIds [g] (splitRangeExcludingIds g ids) (· ∉ ids) := by
  have ⟨ho, hw, hc⟩ : _ ∧ _ ∧ ∀ id, Covers (splitRangeExcludingIds g ids) id ↔ _ := splitRangeExcludingIds_spec hg
  refine ⟨ho, fun id => ?_, ?_⟩
  · rw [hc, covers_cons]
    simp only [covers_nil, or_false]
  · intro g' hg' r hr id _ _
    obtain rfl := List.mem_singleton.1 hg'
    exact (hw r hr).2.2.ge

theorem keepsIds_subtractSortedIdsFromRanges (h : Ordered gaps) (hs : ids.Pairwise (· ≤ ·)) :
    KeepsIds gaps (subtractSortedIdsFromRanges gaps ids) (· ∉ ids) := by
  rw [subtractSortedIdsFromRanges_eq h hs]
  refine ⟨ordered_splitRanges h, fun id => covers_splitRanges h, xmax_le_of_coversBelow h.apart ?_⟩
  intro r hr id hid
  obtain ⟨g, hg, hfrom, hto, hx⟩ := mem_splitRanges h hr
  rw [mem_entry] at hid
  exact ⟨g, hg, mem_entry.2 ⟨by omega, by omega⟩, hx.ge⟩

theorem keepsIds_capPendingGapsBelowCursor (h : Ordered gaps) :
    KeepsIds gaps (capPendingGapsBelowCursor gaps cursor) (· < cursor) := by
  refine ⟨ordered_capPendingGapsBelowCursor h, fun id => covers_capPendingGapsBelowCursor,
    xmax_le_of_coversBelow h.apart ?_⟩
  intro r hr id hid
  obtain ⟨g, hg, hlt, rfl⟩ := mem_capPendingGapsBelowCursor.1 hr
  refine ⟨g, hg, ?_, le_refl _⟩
  rw [mem_entry] at hid ⊢
  dsimp only at hid
  split at hid <;> omega

/-- The ranges may come in any order: they are sorted first. -/
theorem keepsIds_mergeContiguousGapRanges {gaps' : List PendingGapEntry} (h : Ordered gaps) (hp : gaps'.Perm gaps) :
    KeepsIds gaps' (mergeContiguousGapRanges gaps') (fun _ => True) := by
  have ha : gaps'.Pairwise Apart := (hp.pairwise_iff fun h => Apart.symm h).2 h.apart
  obtain ⟨ho, hc, hb⟩ := mergeContiguousGapRanges_spec gaps' (fun g hg => h.nonempty g (hp.mem_iff.1 hg)) ha
  exact ⟨ho, fun id => by rw [hc, and_true], xmax_le_of_coversBelow ha hb⟩

end

/-- On sorted disjoint ranges the operations are the set operations on the ids: splitting and subtracting take out
exactly the ids given, capping keeps those below the cursor, merging keeps them all. -/
theorem gapRanges_algebra {gaps : List PendingGapEntry} (h : Ordered gaps) :
    (∀ g ∈ gaps, ∀ ids, KeepsIds [g] (splitRangeExcludingIds g ids) (· ∉ ids)) ∧
    (∀ ids, ids.Pairwise (· ≤ ·) → KeepsIds gaps (subtractSortedIdsFromRanges gaps ids) (· ∉ ids)) ∧
    (∀ cursor, KeepsIds gaps (capPendingGapsBelowCursor gaps cursor) (· < cursor)) ∧
    (∀ gaps', gaps'.Perm gaps → KeepsIds gaps' (mergeContiguousGapRanges gaps') (fun _ => True)) ∧
    ∀ result keep, KeepsIds gaps result keep → ∀ fetchedIds truncated xminNow, ∀ r ∈ result,
      isBurnt fetchedIds truncated xminNow r = true → ∀ g ∈ gaps, ∀ id, Mem r id → Mem g id → g.xmax ≤ xminNow :=
  ⟨fun g hg _ => keepsIds_splitRangeExcludingIds (h.nonempty g hg),
    fun _ hs => keepsIds_subtractSortedIdsFromRanges h hs,
    fun _ => keepsIds_capPendingGapsBelowCursor h,
    fun _ hp => keepsIds_mergeContiguousGapRanges h hp,
    fun _ _ hk _ _ _ _ hr hb _ hg _ hrid hgid => hk.xmax_le_of_isBurnt hr hb hg hrid hgid⟩

/-- Two ranges that touch become one with the later bound, and the ids at their ends are carved out of both. -/
theorem gapRanges_algebra_touching :
    KeepsIds [⟨8, 9, 12⟩, ⟨3, 7, 10⟩] [⟨3, 9, 12⟩] (fun _ => True) ∧
      KeepsIds [⟨3, 7, 10⟩, ⟨8, 9, 12⟩] [⟨4, 6, 10⟩, ⟨9, 9, 12⟩] (· ∉ [3, 7, 8]) := by
  have h : Ordered [(⟨3, 7, 10⟩ : PendingGapEntry), ⟨8, 9, 12⟩] := ⟨by decide, by decide⟩
  obtain ⟨-, hsubtract, -, hmerge, -⟩ := gapRanges_algebra h
  exact ⟨hmerge [⟨8, 9, 12⟩, ⟨3, 7, 10⟩] (.swap _ _ _), hsubtract [3, 7, 8] (by decide)⟩

end Kumiko
