import Kumiko.Pipeline.Registration

/-!
# The replay of a multi-stream projection

`pipeline/msp-rebuild.ts` replays the subscribed events up to the horizon of a seed and leaves its consumer a
cursor and pending gaps, those of the seed without the replayed ids. They leave to the live turns exactly what
the replay has not seen (`Owes.handOff`). Until the bounds of the gaps are read anew, any bound above every
transaction stands for them (`withBound`).
-/

namespace Kumiko

open Span

/-- What the rebuild reads of a projection's definition. Reference:
`MultiStreamProjectionDefinition`. -/
structure MultiStreamProjectionDefinition where
  /-- The keys of `apply`. -/
  subscribedTypes : List String
  /-- `errorMode.rebuild`. -/
  rebuild : Option ErrorPolicy
  /-- `errorMode.continuous`. -/
  continuous : Option ErrorPolicy

/-- `(msp.errorMode?.rebuild ?? msp.errorMode?.continuous)?.skipApplyErrors`. -/
def MultiStreamProjectionDefinition.skipApplyErrors (msp : MultiStreamProjectionDefinition) : Bool :=
  (msp.rebuild.or msp.continuous).any (·.skipApplyErrors)

/-- The events of a replay, from the rows its statement sees. -/
def selectReplayEvents (visible : List EventRow) (subscribedTypes : List String) (horizon : ℕ) :
    List EventRow :=
  visible.filter fun r => r.type ∈ subscribedTypes && r.id ≤ horizon

/-- What the replay loop has done so far. -/
structure Replay where
  replayedIds : List ℕ
  /-- The ids whose apply threw and was skipped. -/
  skipped : List ℕ
  eventsProcessed : ℕ
  lastProcessedEventId : ℕ

/-- Before the first event. -/
def Replay.start : Replay :=
  { replayedIds := [], skipped := [], eventsProcessed := 0, lastProcessedEventId := 0 }

/-- One event of the loop. -/
def Replay.next (acc : Replay) (id : ℕ) (skipped : List ℕ) : Replay :=
  { replayedIds := acc.replayedIds ++ [id], skipped := acc.skipped ++ skipped
    eventsProcessed := acc.eventsProcessed + 1, lastProcessedEventId := id }

/-- The replay loop; an apply that throws ends it unless the policy skips it. -/
def replayEvents (skipApplyErrors : Bool) (answer : EventRow → Option HandlerError) :
    Replay → List EventRow → Except HandlerError Replay
  | acc, [] => .ok acc
  | acc, row :: rows =>
    match answer row with
    | none => replayEvents skipApplyErrors answer (acc.next row.id []) rows
    | some e =>
      if skipApplyErrors then replayEvents skipApplyErrors answer (acc.next row.id [row.id]) rows
      else .error e

/-- The gaps that are left to the live turns, `cappedGaps` in the source. -/
def cappedGaps (seededGaps : List PendingGapEntry) (r : Replay) : List PendingGapEntry :=
  capPendingGapsBelowCursor (subtractSortedIdsFromRanges seededGaps r.replayedIds)
    r.lastProcessedEventId

/-- The gaps with another bound. -/
def withBound (xmax : ℕ) (gaps : List PendingGapEntry) : List PendingGapEntry :=
  gaps.map fun gap => { gap with xmax }

/-- Reference: `updateConsumerRebuildCursor` (`db/queries/event-consumer.ts`), on the row that
`resetConsumerForMspRebuild` left. -/
def ConsumerStateRow.rebuilt (row : ConsumerStateRow) (lastProcessedEventId : ℕ)
    (pendingGaps : List PendingGapEntry) : ConsumerStateRow :=
  { lastProcessedEventId, status := .idle, attempts := 0, rearmCount := row.rearmCount, pendingGaps,
    lastFailedEventId := none, lastError := none }

section
variable {l : Log} {gaps gaps' burnt : List PendingGapEntry} {settled : List ℕ} {id b cursor : ℕ}
  {skipApplyErrors : Bool} {answer : EventRow → Option HandlerError} {rows : List EventRow}
  {acc r : Replay} {types : List String} {horizon : ℕ}

@[simp] theorem covers_withBound : Covers (withBound b gaps) id ↔ Covers gaps id := by
  constructor
  · intro ⟨g, hg, hm⟩
    obtain ⟨g', hg', rfl⟩ := List.mem_map.1 hg
    exact ⟨g', hg', hm⟩
  · intro ⟨g, hg, hm⟩
    exact ⟨{ g with xmax := b }, List.mem_map_of_mem hg, hm⟩

theorem ordered_withBound (h : Ordered gaps) : Ordered (withBound b gaps) := by
  refine ⟨fun g hg => ?_, List.pairwise_map.2 h.before⟩
  obtain ⟨g', hg', rfl⟩ := List.mem_map.1 hg
  exact h.nonempty g' hg'

theorem xmax_of_mem_withBound {g : PendingGapEntry} (h : g ∈ withBound b gaps) : g.xmax = b := by
  obtain ⟨g', _, rfl⟩ := List.mem_map.1 h
  rfl

/-- A replay that does not fail has read every event, in order, and its cursor is the last one. -/
theorem replayEvents_spec (h : replayEvents skipApplyErrors answer acc rows = .ok r) :
    r.replayedIds = acc.replayedIds ++ rows.map (·.id) ∧
    r.lastProcessedEventId = (rows.map (·.id)).getLast?.getD acc.lastProcessedEventId := by
  induction rows generalizing acc with
  | nil =>
    cases h
    exact ⟨(List.append_nil _).symm, rfl⟩
  | cons row rows ih =>
    have next : ∀ skipped, replayEvents skipApplyErrors answer (acc.next row.id skipped) rows = .ok r →
        r.replayedIds = acc.replayedIds ++ (row :: rows).map (·.id) ∧
        r.lastProcessedEventId =
          ((row :: rows).map (·.id)).getLast?.getD acc.lastProcessedEventId := by
      intro skipped h
      obtain ⟨h₁, h₂⟩ := ih h
      refine ⟨by rw [h₁]; simp [Replay.next], ?_⟩
      rw [h₂, List.map_cons, List.getLast?_cons]
      rfl
    unfold replayEvents at h
    split at h
    · exact next _ h
    · split at h
      · exact next _ h
      · cases h

/-- The bounds of a row's gaps may be replaced by any that are high enough. -/
theorem Owes.rebound (h : Owes l cursor gaps settled burnt) (ho : Ordered gaps')
    (hc : ∀ id, Covers gaps' id ↔ Covers gaps id)
    (hb : ∀ g ∈ gaps', ∀ d ∈ l.draws, Mem g d.1 → d.2 ∈ l.xacts.running → d.2 < g.xmax) :
    Owes l cursor gaps' settled burnt where
  ordered := ho
  below g hg := by
    obtain ⟨g', hg', hm⟩ := (hc g.toId).1 ⟨g, hg, ho.nonempty g hg, le_refl _⟩
    exact hm.2.trans (h.below g' hg')
  cursor_lt := h.cursor_lt
  accounted r hr hle := (h.accounted r hr hle).imp_right fun h => h.imp_left (hc r.id).2
  held d hd hx hle := (hc d.1).2 (h.held d hd hx hle)
  bound := hb
  burnt_below := h.burnt_below
  burnt_gone := h.burnt_gone
  settled_mem id hid :=
    have ⟨h₁, h₂, h₃⟩ := h.settled_mem id hid
    ⟨h₁, fun hcov => h₂ ((hc id).1 hcov), h₃⟩
  nodup := h.nodup

/-- What the gaps left to the live turns cover. -/
theorem cappedGaps_spec (ho : Ordered gaps) (hs : r.replayedIds.Pairwise (· ≤ ·)) :
    Ordered (cappedGaps gaps r) ∧ ∀ id, Covers (cappedGaps gaps r) id ↔
      Covers gaps id ∧ id ∉ r.replayedIds ∧ id < r.lastProcessedEventId := by
  unfold cappedGaps
  rw [subtractSortedIdsFromRanges_eq ho hs]
  refine ⟨ordered_capPendingGapsBelowCursor (ordered_splitRanges ho), fun id => ?_⟩
  rw [covers_capPendingGapsBelowCursor, covers_splitRanges ho, and_assoc]

/-- The ids a replay settles: what its statement sees up to the cursor, outside the gaps left to the
live turns. -/
def settledByReplay (l : Log) (gaps : List PendingGapEntry) (r : Replay) : List ℕ :=
  l.visibleIds.filter fun id => id ≤ r.lastProcessedEventId ∧ ¬ Covers (cappedGaps gaps r) id

theorem mem_settledByReplay : id ∈ settledByReplay l gaps r ↔
    id ∈ l.visibleIds ∧ id ≤ r.lastProcessedEventId ∧ ¬ Covers (cappedGaps gaps r) id := by
  simp [settledByReplay]

/-- What a replay has replayed is what its statement has returned. -/
structure Replayed (l : Log) (types : List String) (horizon : ℕ) (r : Replay) : Prop where
  ids : r.replayedIds = (selectReplayEvents l.visibleRows types horizon).map (·.id)
  last : r.lastProcessedEventId = r.replayedIds.getLast?.getD 0

/-- The replay of the rebuild. -/
theorem Replayed.of_replayEvents (h : replayEvents skipApplyErrors answer .start
    (selectReplayEvents l.visibleRows types horizon) = .ok r) : Replayed l types horizon r := by
  have ⟨h₁, h₂⟩ := replayEvents_spec h
  have hids : r.replayedIds = (selectReplayEvents l.visibleRows types horizon).map (·.id) := h₁
  exact ⟨hids, hids ▸ h₂⟩

namespace Replayed

/-- The replayed ids ascend. -/
theorem sorted (h : Replayed l types horizon r) (hw : l.WF) :
    r.replayedIds.Pairwise (· < ·) := by
  rw [h.ids]
  exact List.pairwise_map.2 (hw.visibleRows_sorted.sublist List.filter_sublist)

/-- They are visible and up to the horizon. -/
theorem mem (h : Replayed l types horizon r) (hid : id ∈ r.replayedIds) :
    id ∈ l.visibleIds ∧ id ≤ horizon := by
  rw [h.ids] at hid
  obtain ⟨e, he, rfl⟩ := List.mem_map.1 hid
  have ⟨he, hp⟩ := List.mem_filter.1 he
  rw [Bool.and_eq_true, decide_eq_true_eq, decide_eq_true_eq] at hp
  exact ⟨List.mem_map_of_mem he, hp.2⟩

/-- The cursor is zero or a replayed id. -/
theorem cursor_cases (h : Replayed l types horizon r) :
    r.lastProcessedEventId = 0 ∨ r.lastProcessedEventId ∈ r.replayedIds := by
  rw [h.last]
  cases hlast : r.replayedIds.getLast? with
  | none => exact .inl rfl
  | some id => exact .inr (List.mem_of_getLast? hlast)

theorem cursor_le (h : Replayed l types horizon r) : r.lastProcessedEventId ≤ horizon := by
  rcases h.cursor_cases with hz | hm
  · exact hz ▸ Nat.zero_le _
  · exact (h.mem hm).2

/-- The cursor has passed every replayed id. -/
theorem le_cursor (h : Replayed l types horizon r) (hw : l.WF) (hid : id ∈ r.replayedIds) :
    id ≤ r.lastProcessedEventId := h.last ▸ le_getLastD_of_sorted (h.sorted hw) 0 id hid

/-- A replayed id is settled. -/
theorem replayed_settled (h : Replayed l types horizon r) (hw : l.WF) (ho : Ordered gaps)
    (hid : id ∈ r.replayedIds) : id ∈ settledByReplay l gaps r := by
  have ⟨_, hc⟩ := cappedGaps_spec ho ((h.sorted hw).imp Nat.le_of_lt)
  exact mem_settledByReplay.2
    ⟨(h.mem hid).1, h.le_cursor hw hid, fun hcov => ((hc id).1 hcov).2.1 hid⟩

/-- A subscribed event that a replay settles was replayed. -/
theorem subscribed (h : Replayed l types horizon r) (hw : l.WF) {e : EventRow} (he : e ∈ l.rows)
    (hid : e.id ∈ settledByReplay l gaps r) (ht : e.type ∈ types) : e.id ∈ r.replayedIds := by
  have ⟨hv, hle, _⟩ := mem_settledByReplay.1 hid
  obtain ⟨e', he', hvis, heq⟩ := mem_visibleIds.1 hv
  obtain rfl := hw.id_inj he' he heq
  rw [h.ids]
  refine List.mem_map_of_mem (List.mem_filter.2 ⟨Log.mem_visibleRows.2 ⟨he', hvis⟩, ?_⟩)
  rw [Bool.and_eq_true, decide_eq_true_eq, decide_eq_true_eq]
  exact ⟨ht, hle.trans h.cursor_le⟩

end Replayed

/-- What the replay leaves owes all that its statement did not see, with any bound above the
transactions in flight. -/
theorem Owes.handOff (hw : l.WF) (h : SeedHeld l horizon gaps) (hr : Replayed l types horizon r)
    (hb : l.xacts.nextXid ≤ b) :
    Owes l r.lastProcessedEventId (withBound b (cappedGaps gaps r)) (settledByReplay l gaps r) [] := by
  have ⟨hco, hc⟩ := cappedGaps_spec h.ordered ((hr.sorted hw).imp Nat.le_of_lt)
  have held : ∀ d ∈ l.draws, d.2 ∈ l.xacts.running → d.1 ≤ r.lastProcessedEventId →
      Covers (cappedGaps gaps r) d.1 := by
    intro d hd hx hle
    have hnv := not_visible_of_running hw hd hx
    refine (hc d.1).2 ⟨h.held d hd hx (hle.trans hr.cursor_le), fun hid => hnv (hr.mem hid).1, ?_⟩
    refine lt_of_le_of_ne hle fun he => ?_
    rcases hr.cursor_cases with hz | hm
    · have := (hw.draw_lt d hd).1
      omega
    · exact hnv (he ▸ (hr.mem hm).1)
  refine
    { ordered := ordered_withBound hco
      below := fun g hg => ?_
      cursor_lt := hr.cursor_le.trans_lt h.horizon_lt
      accounted := fun e he hle => ?_
      held := fun d hd hx hle => covers_withBound.2 (held d hd hx hle)
      bound := fun g hg d hd _ _ => ?_
      burnt_below := (fun _ h => nomatch h)
      burnt_gone := ⟨fun _ _ h => absurd h covers_nil, fun _ _ h => absurd h covers_nil⟩
      settled_mem := fun id hid => ?_
      nodup := (visibleIds_nodup hw).filter _ }
  · obtain ⟨g', hg', rfl⟩ := List.mem_map.1 hg
    exact Nat.le_of_lt ((hc g'.toId).1 ⟨g', hg', hco.nonempty g' hg', le_refl _⟩).2.2
  · rw [covers_withBound]
    by_cases hcov : Covers (cappedGaps gaps r) e.id
    · exact .inr (.inl hcov)
    rcases Xacts.trichotomy (hw.xid_lt he) with hx | hx | hx
    · exact absurd (held _ (hw.drawn e he) hx hle) hcov
    · by_cases hp : e.id ∈ l.pruned
      · exact .inr (.inr (.inr hp))
      · have hv := mem_visibleIds.2 ⟨e, he, ⟨hx, hp⟩, rfl⟩
        exact .inl (mem_settledByReplay.2 ⟨hv, hle, hcov⟩)
    · exact .inr (.inr (.inl hx))
  · rw [xmax_of_mem_withBound hg]
    exact (hw.draw_xid_lt hd).trans_le hb
  · have ⟨hv, hle, hn⟩ := mem_settledByReplay.1 hid
    obtain ⟨e, he, hvis, rfl⟩ := mem_visibleIds.1 hv
    exact ⟨hle, fun hcov => hn (covers_withBound.1 hcov), e, he, rfl, hvis.1⟩

end

end Kumiko
