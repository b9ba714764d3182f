import Kumiko.Pipeline.Owes

/-!
# The seed of a consumer that starts from now

`selectEventIdHorizonWithMissingRanges` (`db/queries/event-consumer.ts`) reads the highest visible id and the
ranges below it that a transaction in flight may still fill: up to the highest cursor that consumer's pending
gaps, above it the holes of the log. The seed owes exactly what was not committed when it was read
(`Owes.seed`), on the conditions of `SeedCovers`.
-/

namespace Kumiko

open Span

/-- `COALESCE(MAX("id"), 0)`. -/
def maxId (rows : List EventRow) : ℕ := (rows.map (·.id)).foldr max 0

/-- A cursor to start from, and the pending gaps below it. -/
structure EventIdHorizon where
  horizon : ℕ
  gaps : List PendingGapEntry

/-- The ids above the cursor. -/
def idsAbove (rows : List EventRow) (cursor : ℕ) : List ℕ :=
  (rows.filter fun r => r.id > cursor).map (·.id)

/-- The cursor above which the log is scanned, `c.v` in the statement. -/
def scanBound (top : Option ConsumerStateRow) : ℕ := (top.map (·.lastProcessedEventId)).getD 0

/-- The pending gaps that are taken over. -/
def takenOverGaps (top : Option ConsumerStateRow) : List PendingGapEntry :=
  (top.map (·.pendingGaps)).getD []

/-- The holes above the bound, unless the snapshot lists no running transaction but the reader's
own. -/
def scannedGaps (l : Log) (own : Option ℕ) (top : Option ConsumerStateRow) : List PendingGapEntry :=
  if (l.xacts.xip own).isEmpty then []
  else gapEntries l.xacts.xmax
    (newGapBounds (scanBound top) (idsAbove l.visibleRows (scanBound top)))

/-- The horizon and its gaps, where `top` is the row with the highest cursor, `a` in the statement.
Reference: `selectEventIdHorizonWithMissingRanges`. -/
def selectEventIdHorizonWithMissingRanges (l : Log) (own : Option ℕ)
    (top : Option ConsumerStateRow) : EventIdHorizon :=
  { horizon := maxId l.visibleRows
    gaps := (takenOverGaps top ++ scannedGaps l own top).insertionSort
      fun a b => a.fromId ≤ b.fromId }

/-- The ids whose rows a statement sees. -/
def Log.visibleIds (l : Log) : List ℕ := l.visibleRows.map (·.id)

/-- The seed's bounds hold: every writer in flight that has drawn an id between the scan's bound and
the horizon is below `xmax`, and the gaps taken over lie at or below the horizon. -/
structure SeedCovers (l : Log) (top : Option ConsumerStateRow) : Prop where
  xmax : ∀ d ∈ l.draws, d.2 ∈ l.xacts.running → scanBound top < d.1 →
    d.1 ≤ maxId l.visibleRows → d.2 < l.xacts.xmax
  below : ∀ g ∈ takenOverGaps top, g.toId ≤ maxId l.visibleRows

instance (l : Log) (top : Option ConsumerStateRow) : Decidable (SeedCovers l top) :=
  decidable_of_iff
    ((∀ d ∈ l.draws, d.2 ∈ l.xacts.running → scanBound top < d.1 →
      d.1 ≤ maxId l.visibleRows → d.2 < l.xacts.xmax) ∧
      ∀ g ∈ takenOverGaps top, g.toId ≤ maxId l.visibleRows)
    ⟨fun h => ⟨h.1, h.2⟩, fun h => ⟨h.xmax, h.below⟩⟩

section
variable {l : Log} {rows : List EventRow} {r : EventRow} {top : Option ConsumerStateRow}
  {own : Option ℕ} {id cursor : ℕ}

theorem le_maxId (h : r ∈ rows) : r.id ≤ maxId rows := by
  induction rows with
  | nil => nomatch h
  | cons a rows ih =>
    simp only [maxId, List.map_cons, List.foldr_cons] at ih ⊢
    cases h with
    | head => exact le_max_left _ _
    | tail _ h => exact (ih h).trans (le_max_right _ _)

/-- The horizon is the id of a row, or the log looks empty. -/
theorem maxId_mem (rows : List EventRow) : maxId rows = 0 ∨ ∃ r ∈ rows, r.id = maxId rows := by
  induction rows with
  | nil => exact .inl rfl
  | cons a rows ih =>
    have hmax : maxId (a :: rows) = max a.id (maxId rows) := rfl
    rw [hmax]
    rcases Nat.le_total (maxId rows) a.id with hle | hle
    · exact .inr ⟨a, .head _, (max_eq_left hle).symm⟩
    · rw [max_eq_right hle]
      exact ih.imp_right fun ⟨r, hr, he⟩ => ⟨r, .tail _ hr, he⟩

theorem maxId_lt (hw : l.WF) : maxId l.visibleRows < l.nextId := by
  rcases maxId_mem l.visibleRows with h | ⟨r, hr, h⟩
  · exact h ▸ hw.nextId_pos
  · exact h ▸ hw.id_lt (Log.mem_visibleRows.1 hr).1

theorem mem_visibleIds : id ∈ l.visibleIds ↔ ∃ r ∈ l.rows, l.Visible r ∧ r.id = id := by
  simp only [Log.visibleIds, List.mem_map, Log.mem_visibleRows, and_assoc]

theorem visibleIds_nodup (hw : l.WF) : l.visibleIds.Nodup :=
  (List.pairwise_map.2 hw.visibleRows_sorted).imp Nat.ne_of_lt

/-- An id with a writer in flight has no visible row. -/
theorem not_visible_of_running (hw : l.WF) {d : ℕ × ℕ} (hd : d ∈ l.draws)
    (hx : d.2 ∈ l.xacts.running) : d.1 ∉ l.visibleIds := fun h => by
  obtain ⟨r, hr, hv, he⟩ := mem_visibleIds.1 h
  have : r.xid = d.2 := congrArg Prod.snd (hw.draw_inj _ (hw.drawn r hr) d hd he)
  exact hw.xacts.disjoint _ hv.1 (this ▸ hx)

theorem mem_idsAbove : id ∈ idsAbove l.visibleRows cursor ↔ id ∈ l.visibleIds ∧ cursor < id := by
  simp only [idsAbove, Log.visibleIds, List.mem_map, List.mem_filter, decide_eq_true_eq]
  constructor
  · intro ⟨r, ⟨hr, hlt⟩, he⟩
    exact ⟨⟨r, hr, he⟩, he ▸ hlt⟩
  · intro ⟨⟨r, hr, he⟩, hlt⟩
    exact ⟨r, ⟨hr, he ▸ hlt⟩, he⟩

/-- The scanned ranges are ordered and above the bound, and cover only ids between two visible ones
or between the bound and the first one. -/
theorem scannedGaps_spec (own : Option ℕ) (top : Option ConsumerStateRow) (hw : l.WF) :
    Ordered (scannedGaps l own top) ∧
    (∀ g ∈ scannedGaps l own top, scanBound top < g.fromId ∧ g.xmax = l.xacts.xmax) ∧
    ∀ id, Covers (scannedGaps l own top) id →
      scanBound top < id ∧ id ∉ l.visibleIds ∧ id ≤ maxId l.visibleRows := by
  unfold scannedGaps
  split
  · exact ⟨ordered_nil, (fun _ h => nomatch h), fun _ h => absurd h covers_nil⟩
  · have ⟨ho, hf, hc⟩ := newGapBounds_spec l.xacts.xmax
      (idsAbove l.visibleRows (scanBound top)) (scanBound top)
      (List.pairwise_map.2 (hw.visibleRows_sorted.sublist List.filter_sublist))
      fun id hid => (mem_idsAbove.1 hid).2
    refine ⟨ho, fun g hg => ⟨hf g hg, (mem_gapEntries.1 hg).2⟩, fun id hid => ?_⟩
    obtain ⟨hlt, hn, w, hwm, hle⟩ := (hc id).1 hid
    refine ⟨hlt, fun hv => hn (mem_idsAbove.2 ⟨hv, hlt⟩), ?_⟩
    obtain ⟨r, hr, rfl⟩ := List.mem_map.1 (mem_idsAbove.1 hwm).1
    exact (Nat.le_of_lt hle).trans (le_maxId hr)

/-- When a transaction is listed, the scan covers every hole between the bound and the horizon. -/
theorem covers_scannedGaps (hw : l.WF) (hx : l.xacts.xip own ≠ []) (hlt : scanBound top < id)
    (hv : id ∉ l.visibleIds) (hle : id ≤ maxId l.visibleRows) :
    Covers (scannedGaps l own top) id := by
  unfold scannedGaps
  rw [if_neg (by rwa [List.isEmpty_iff])]
  have ⟨_, _, hc⟩ := newGapBounds_spec l.xacts.xmax
    (idsAbove l.visibleRows (scanBound top)) (scanBound top)
    (List.pairwise_map.2 (hw.visibleRows_sorted.sublist List.filter_sublist))
    fun id hid => (mem_idsAbove.1 hid).2
  -- the horizon itself is the visible id that follows
  rcases maxId_mem l.visibleRows with h | ⟨r, hr, h⟩
  · omega
  · have hm : maxId l.visibleRows ∈ l.visibleIds := h ▸ List.mem_map_of_mem hr
    have hne : id ≠ maxId l.visibleRows := fun he => hv (he ▸ hm)
    refine (hc id).2 ⟨hlt, fun hid => hv (mem_idsAbove.1 hid).1, maxId l.visibleRows,
      mem_idsAbove.2 ⟨hm, ?_⟩, ?_⟩ <;> omega

/-- Sorting the ranges of an ordered list leaves it as it is. -/
theorem sortGaps_eq {gs : List PendingGapEntry} (h : Ordered gs) :
    gs.insertionSort (fun a b => a.fromId ≤ b.fromId) = gs := by
  refine List.Pairwise.insertionSort_eq ?_
  refine h.before.imp_of_mem fun {a b} ha _ hab => ?_
  have := h.nonempty a ha
  simp only [Before, span_lo, span_hi] at this hab
  omega

/-- The gaps taken over lie before the scanned ones. -/
theorem seedGaps_ordered (own : Option ℕ) (hw : l.WF) (ho : Ordered (takenOverGaps top))
    (hb : ∀ g ∈ takenOverGaps top, g.toId ≤ scanBound top) :
    Ordered (takenOverGaps top ++ scannedGaps l own top) := by
  have ⟨hso, hsf, _⟩ := scannedGaps_spec own top hw
  refine ho.append hso fun g hg g' hg' => ?_
  have h₁ := hb g hg
  have h₂ := (hsf g' hg').1
  simp only [Before, span_lo, span_hi]
  omega

/-- Whenever a writer in flight has drawn an id between the scan's bound and the horizon, the snapshot
lists a running transaction, so that the holes are scanned. -/
def ScanOk (l : Log) (own : Option ℕ) (top : Option ConsumerStateRow) : Prop :=
  ∀ d ∈ l.draws, d.2 ∈ l.xacts.running → scanBound top < d.1 → d.1 ≤ maxId l.visibleRows →
    l.xacts.xip own ≠ []

instance (l : Log) (own : Option ℕ) (top : Option ConsumerStateRow) : Decidable (ScanOk l own top) :=
  inferInstanceAs (Decidable (∀ d ∈ l.draws, _))

/-- A running writer below `xmax` is listed. -/
theorem SeedCovers.scanOk (h : SeedCovers l top) (hw : l.WF)
    (hown : ∀ x, own = some x → l.Reading x) : ScanOk l own top := by
  intro d hd hx hlt hle
  have hne : some d.2 ≠ own := fun he => (hown d.2 he.symm).1 (hw.draw_writer d hd)
  have hin : d.2 ∈ l.xacts.xip own :=
    List.mem_filter.2 ⟨hx, decide_eq_true ⟨h.xmax d hd hx hlt hle, hne⟩⟩
  exact List.ne_nil_of_mem hin

/-- The gaps hold every id up to the horizon that may still get a row. -/
structure SeedHeld (l : Log) (horizon : ℕ) (gaps : List PendingGapEntry) : Prop where
  ordered : Ordered gaps
  horizon_lt : horizon < l.nextId
  held : ∀ d ∈ l.draws, d.2 ∈ l.xacts.running → d.1 ≤ horizon → Covers gaps d.1

theorem SeedHeld.ext {l' : Log} {horizon : ℕ} {gaps : List PendingGapEntry}
    (h : SeedHeld l horizon gaps) (hw : l.WF) (he : l.Ext l') : SeedHeld l' horizon gaps where
  ordered := h.ordered
  horizon_lt := h.horizon_lt.trans_le he.nextId
  held d hd hx hle := by
    have hd := he.old_draw hd (hle.trans_lt h.horizon_lt)
    exact h.held d hd (he.old_running hw hd hx) hle

/-- What the row with the highest cursor contributes to a seed. -/
theorem takenOver_spec (hw : l.WF)
    (htop : ∀ row, top = some row →
      ∃ settled burnt, Owes l row.lastProcessedEventId row.pendingGaps settled burnt) :
    Ordered (takenOverGaps top) ∧ (∀ g ∈ takenOverGaps top, g.toId ≤ scanBound top) ∧
    (∀ d ∈ l.draws, d.2 ∈ l.xacts.running → d.1 ≤ scanBound top →
      Covers (takenOverGaps top) d.1) ∧
    ∀ g ∈ takenOverGaps top, ∀ d ∈ l.draws, Mem g d.1 → d.2 ∈ l.xacts.running → d.2 < g.xmax := by
  cases top with
  | none =>
    refine ⟨ordered_nil, (fun _ h => nomatch h), fun d hd _ hle => ?_, (fun _ h => nomatch h)⟩
    exact absurd (hw.draw_lt d hd).1 (Nat.not_lt.2 hle)
  | some row =>
    obtain ⟨_, _, h⟩ := htop row rfl
    exact ⟨h.ordered, h.below, h.held, h.bound⟩

/-- A seed holds what is in flight when its scan is not skipped. -/
theorem seedHeld (hw : l.WF)
    (htop : ∀ row, top = some row →
      ∃ settled burnt, Owes l row.lastProcessedEventId row.pendingGaps settled burnt)
    (hscan : ScanOk l own top) :
    SeedHeld l (selectEventIdHorizonWithMissingRanges l own top).horizon
      (selectEventIdHorizonWithMissingRanges l own top).gaps := by
  have ⟨hto, htb, hth, _⟩ := takenOver_spec hw htop
  have hord := seedGaps_ordered own hw hto htb
  have hgaps : (selectEventIdHorizonWithMissingRanges l own top).gaps =
      takenOverGaps top ++ scannedGaps l own top := sortGaps_eq hord
  rw [hgaps]
  refine ⟨hord, maxId_lt hw, fun d hd hx hle => ?_⟩
  rw [covers_append]
  rcases Nat.lt_or_ge (scanBound top) d.1 with hlt | hge
  · exact .inr (covers_scannedGaps hw (hscan d hd hx hlt hle) hlt
      (not_visible_of_running hw hd hx) hle)
  · exact .inl (hth d hd hx hge)

/-- The seed's row owes what was not committed when it was read, and the visible ids of the gaps it
took over. -/
theorem Owes.seed (hw : l.WF)
    (htop : ∀ row, top = some row →
      ∃ settled burnt, Owes l row.lastProcessedEventId row.pendingGaps settled burnt)
    (hown : ∀ x, own = some x → l.Reading x) (hc : SeedCovers l top) :
    Owes l (selectEventIdHorizonWithMissingRanges l own top).horizon
      (selectEventIdHorizonWithMissingRanges l own top).gaps
      (l.visibleIds.filter fun id =>
        ¬ Covers (selectEventIdHorizonWithMissingRanges l own top).gaps id) [] := by
  have ⟨hto, htb, _, htx⟩ := takenOver_spec hw htop
  have hseed := seedHeld hw htop (hc.scanOk hw hown)
  have ⟨_, hsf, hsc⟩ := scannedGaps_spec own top hw
  have hgaps : (selectEventIdHorizonWithMissingRanges l own top).gaps =
      takenOverGaps top ++ scannedGaps l own top := sortGaps_eq (seedGaps_ordered own hw hto htb)
  have hhor : (selectEventIdHorizonWithMissingRanges l own top).horizon = maxId l.visibleRows := rfl
  rw [hgaps, hhor] at hseed ⊢
  refine
    { ordered := hseed.ordered
      below := fun g hg => ?_
      cursor_lt := hseed.horizon_lt
      accounted := fun r hr hle => ?_
      held := hseed.held
      bound := fun g hg d hd hm hx => ?_
      burnt_below := (fun _ h => nomatch h)
      burnt_gone := ⟨fun _ _ h => absurd h covers_nil, fun _ _ h => absurd h covers_nil⟩
      settled_mem := fun id hid => ?_
      nodup := (visibleIds_nodup hw).filter _ }
  · rcases List.mem_append.1 hg with hg | hg
    · exact hc.below g hg
    · have hn := hseed.ordered.nonempty g (List.mem_append_right _ hg)
      exact (hsc g.toId ⟨g, hg, hn, le_refl _⟩).2.2
  · by_cases hcov : Covers (takenOverGaps top ++ scannedGaps l own top) r.id
    · exact .inr (.inl hcov)
    rcases Xacts.trichotomy (hw.xid_lt hr) with hx | hx | hx
    · exact absurd (hseed.held _ (hw.drawn r hr) hx hle) hcov
    · by_cases hp : r.id ∈ l.pruned
      · exact .inr (.inr (.inr hp))
      · refine .inl (List.mem_filter.2 ⟨mem_visibleIds.2 ⟨r, hr, ⟨hx, hp⟩, rfl⟩, ?_⟩)
        exact decide_eq_true hcov
    · exact .inr (.inr (.inl hx))
  · rcases List.mem_append.1 hg with hg | hg
    · exact htx g hg d hd hm hx
    · have ⟨hlt, _, hle⟩ := hsc d.1 ⟨g, hg, hm⟩
      rw [(hsf g hg).2]
      exact hc.xmax d hd hx hlt hle
  · have ⟨hv, hn⟩ := List.mem_filter.1 hid
    obtain ⟨r, hr, hvis, rfl⟩ := mem_visibleIds.1 hv
    exact ⟨le_maxId (Log.mem_visibleRows.2 ⟨hr, hvis⟩), of_decide_eq_true hn, r, hr, rfl, hvis.1⟩

/-- When the gaps taken over hold no visible id, the seed settles everything that is visible. -/
theorem seed_settles_all (hw : l.WF) (ho : Ordered (takenOverGaps top))
    (hb : ∀ g ∈ takenOverGaps top, g.toId ≤ scanBound top)
    (hv : ∀ id ∈ l.visibleIds, ¬ Covers (takenOverGaps top) id) :
    (l.visibleIds.filter fun id =>
      ¬ Covers (selectEventIdHorizonWithMissingRanges l own top).gaps id) = l.visibleIds := by
  have ⟨_, _, hsc⟩ := scannedGaps_spec own top hw
  refine List.filter_eq_self.2 fun id hid => decide_eq_true fun hcov => ?_
  have hgaps : (selectEventIdHorizonWithMissingRanges l own top).gaps =
      takenOverGaps top ++ scannedGaps l own top := sortGaps_eq (seedGaps_ordered own hw ho hb)
  rw [hgaps, covers_append] at hcov
  rcases hcov with hcov | hcov
  · exact hv id hid hcov
  · exact (hsc id hcov).2.1 hid

end

end Kumiko
