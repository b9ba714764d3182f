import Kumiko.EventStore.Queries
import Kumiko.Pipeline.Delivery

/-!
# A consumer's turn, statement by statement

`processConsumer` of `pipeline/event-dispatcher.ts`. A turn is one transaction over the consumer's row: it locks
the row, reads `xmin`, fetches, drops burnt gaps, delivers, reads `xmax`, and writes the row, each under a
snapshot of its own. The handlers run outside of it, and what they did is not undone. A `ConsumerSlot` also
keeps three records the source does not: the calls, the ids resolved by committed turns, and the ranges they
dropped.
-/

namespace Kumiko

open Span

/-- The ranges between consecutive ids of the window. Reference: the loop over `newWindowIds` in
`processConsumer`. -/
def newGapBounds : ℕ → List ℕ → List (ℕ × ℕ)
  | _, [] => []
  | prev, id :: ids =>
    if id > prev + 1 then (prev + 1, id - 1) :: newGapBounds id ids else newGapBounds id ids

/-- The delivered ids the cursor moved over, `newWindowIds` in `processConsumer`. -/
def newWindowIds (oldCursor : ℕ) (d : TurnDelivery) : List ℕ :=
  (d.deliverable.map (·.id)).filter fun id => id > oldCursor && id ≤ d.outcome.cursor

/-- `newGapBounds` and `heldBounds` of `processConsumer`. -/
def newBounds (oldCursor : ℕ) (d : TurnDelivery) : List (ℕ × ℕ) :=
  newGapBounds oldCursor (newWindowIds oldCursor d) ++ d.outcome.heldNewIds.map fun id => (id, id)

/-- The entries of a list of bounds. -/
def gapEntries (xmaxNow : ℕ) (bounds : List (ℕ × ℕ)) : List PendingGapEntry :=
  bounds.map fun b => ⟨b.1, b.2, xmaxNow⟩

/-- The pending gaps a turn writes. Reference: `persistedOutcome` in `processConsumer`. -/
def gapsAfterTurn (survivingGaps : List PendingGapEntry) (oldCursor : ℕ) (d : TurnDelivery)
    (xmaxNow : ℕ) : List PendingGapEntry :=
  mergeContiguousGapRanges
    (survivingGaps.flatMap (fun gap => splitRangeExcludingIds gap d.outcome.resolvedPendingIds) ++
      gapEntries xmaxNow (newBounds oldCursor d))

namespace ConsumerStateRow

/-- Reference: `rearmDeadConsumer` (`db/queries/event-consumer.ts`). -/
def rearm (row : ConsumerStateRow) : ConsumerStateRow :=
  { row with status := .idle, attempts := 0, lastError := none, rearmCount := row.rearmCount + 1 }

/-- Reference: `updateConsumerDeliveryOutcome`. -/
def deliveryOutcome (row : ConsumerStateRow) (o : DeliveryOutcome)
    (pendingGaps : List PendingGapEntry) : ConsumerStateRow :=
  { lastProcessedEventId := o.cursor
    status := if o.deadLettered then .dead else .idle
    attempts := o.attempts
    rearmCount := if o.processed > 0 then 0 else row.rearmCount
    pendingGaps
    lastFailedEventId := o.failedEventId
    lastError := o.lastError }

end ConsumerStateRow

/-- How far a turn has come and what it has read. -/
inductive TurnPhase
  /-- The row is locked. -/
  | acquired
  /-- `xmin` has been read, when there are gaps. -/
  | xminRead (xminNow : ℕ)
  /-- The events have been fetched. -/
  | fetched (xminNow : ℕ) (events : List EventRow)
  /-- The events have been delivered. -/
  | delivered (d : TurnDelivery) (burntGaps survivingGaps : List PendingGapEntry)
  /-- The row has been written, not yet committed. -/
  | persisted (row : ConsumerStateRow) (resolved : List ℕ) (burntGaps : List PendingGapEntry)
  /-- The turn has nothing to do. -/
  | skipped

/-- A turn: its transaction, the state it acquired and its phase. -/
structure Turn where
  xid : ℕ
  state : ConsumerStateRow
  phase : TurnPhase

/-- A consumer's row, the turn that holds its lock, and what its turns have done. -/
structure ConsumerSlot where
  row : ConsumerStateRow
  turn : Option Turn
  /-- Every handler call so far, those of turns that rolled back included. -/
  calls : List HandlerCall
  /-- The ids delivered or skipped by turns that committed. -/
  resolved : List ℕ
  /-- The ranges dropped as burnt by turns that committed. -/
  burnt : List PendingGapEntry

/-- A free row has no turn of which anything has to be shown. -/
theorem ConsumerSlot.no_turn {s : ConsumerSlot} {p : Turn → Prop} (h : s.turn = none) :
    ∀ t, s.turn = some t → p t := fun t ht => by
  rw [h] at ht
  cases ht

/-- A row as registration inserts it, with a cursor and gaps. Reference: the column defaults of
`eventConsumerStateTable`. -/
def ConsumerSlot.registered (lastProcessedEventId : ℕ) (pendingGaps : List PendingGapEntry) :
    ConsumerSlot :=
  { row := { lastProcessedEventId, status := .idle, attempts := 0, rearmCount := 0, pendingGaps,
             lastFailedEventId := none, lastError := none }
    turn := none, calls := [], resolved := [], burnt := [] }

/-- The steps of a turn. -/
inductive TurnAct
  /-- The row is locked; the flag says whether a dead row's cooldown is over. -/
  | acquire (cooldownElapsed : Bool)
  | readXmin
  | fetch
  /-- The handlers answer. -/
  | deliver (answers : HandlerAnswers)
  | readXmax
  | commit
  | abort
  /-- A failed turn's error is recorded, in a transaction of its own. -/
  | recordFailure (errorMessage : String) (cursorBeforePass : Option ℕ)

/-- The row a turn goes on with, if any. Reference: `acquireConsumerState`. -/
def acquireConsumerState (opts : DispatcherOptions) (row : ConsumerStateRow)
    (cooldownElapsed : Bool) : Option ConsumerStateRow :=
  match row.status with
  | .disabled => none
  | .dead =>
    if cooldownElapsed && row.rearmCount < opts.maxRearmCount then some row.rearm else none
  | .idle | .processing => some row

/-- The gaps a turn with this fetch burns and keeps. -/
def burntAndSurviving (c : EventConsumer) (opts : DispatcherOptions) (state : ConsumerStateRow)
    (xminNow : ℕ) (events : List EventRow) : List PendingGapEntry × List PendingGapEntry :=
  let pendingFetchedIds := pendingIdsOf events state.lastProcessedEventId
  partitionBurntGaps state.pendingGaps pendingFetchedIds
    (pendingFetchedIds.length = pendingFetchLimit c opts.batchSize) xminNow

/-- What a fetched turn hands over. -/
def turnDelivery (c : EventConsumer) (opts : DispatcherOptions) (l : Log)
    (state : ConsumerStateRow) (xminNow : ℕ) (events : List EventRow) (answers : HandlerAnswers) :
    TurnDelivery :=
  deliverConsumerTurn c opts state events (pendingFetchLimit c opts.batchSize)
    (burntAndSurviving c opts state xminNow events).2.length
    (selectTenantIdsInRangesAbove l.visibleRows state.pendingGaps) answers

/-- One step of a turn of the consumer. A row that another turn has locked is skipped, which is no
step at all. Reference: `processConsumer`. -/
def turnStep (c : EventConsumer) (opts : DispatcherOptions) (l : Log) (s : ConsumerSlot) :
    TurnAct → Option (Log × ConsumerSlot)
  | .acquire cooldownElapsed =>
    match s.turn with
    | some _ => none
    | none =>
      let turn := match acquireConsumerState opts s.row cooldownElapsed with
        | some state => ⟨l.xacts.nextXid, state, .acquired⟩
        | none => ⟨l.xacts.nextXid, s.row, .skipped⟩
      some (l.claim, { s with turn := some turn })
  | .readXmin =>
    match s.turn with
    | some ⟨xid, state, .acquired⟩ =>
      let xminNow := if state.pendingGaps.isEmpty then 0 else l.xacts.xmin
      some (l, { s with turn := some ⟨xid, state, .xminRead xminNow⟩ })
    | _ => none
  | .fetch =>
    match s.turn with
    | some ⟨xid, state, .xminRead xminNow⟩ =>
      let events := selectPendingAndNewEventRows l.visibleRows state.lastProcessedEventId
        state.pendingGaps opts.batchSize (pendingFetchLimit c opts.batchSize)
      some (l, { s with turn := some ⟨xid, state, .fetched xminNow events⟩ })
    | _ => none
  | .deliver answers =>
    match s.turn with
    | some ⟨xid, state, .fetched xminNow events⟩ =>
      let gaps := burntAndSurviving c opts state xminNow events
      if events.isEmpty && gaps.1.isEmpty then
        some (l, { s with turn := some ⟨xid, state, .skipped⟩ })
      else
        let d := turnDelivery c opts l state xminNow events answers
        some (l, { s with turn := some ⟨xid, state, .delivered d gaps.1 gaps.2⟩,
                          calls := s.calls ++ d.calls })
    | _ => none
  | .readXmax =>
    match s.turn with
    | some ⟨xid, state, .delivered d burntGaps survivingGaps⟩ =>
      let pendingGaps := gapsAfterTurn survivingGaps state.lastProcessedEventId d l.xacts.xmax
      some (l, { s with turn := some ⟨xid, state, .persisted
        (state.deliveryOutcome d.outcome pendingGaps) (resolvedIds c d.calls) burntGaps⟩ })
    | _ => none
  | .commit =>
    match s.turn with
    | some ⟨xid, _, .persisted row resolved burntGaps⟩ =>
      some (l.commit xid, { s with row, turn := none, resolved := s.resolved ++ resolved,
                                   burnt := s.burnt ++ burntGaps })
    | some ⟨xid, state, .skipped⟩ => some (l.commit xid, { s with row := state, turn := none })
    | _ => none
  | .abort => s.turn.map fun t => (l.abort t.xid, { s with turn := none })
  | .recordFailure errorMessage cursorBeforePass =>
    if s.turn.isNone && cursorBeforePass.all (· = s.row.lastProcessedEventId) then
      some (l.claim.commit l.xacts.nextXid,
        { s with row := { s.row with lastError := some errorMessage } })
    else none

/-- What the steps of a turn do, one rule for each way a step can go. -/
inductive TurnStep (c : EventConsumer) (opts : DispatcherOptions) (l : Log) (s : ConsumerSlot) :
    TurnAct → Log → ConsumerSlot → Prop
  | acquire {cooldownElapsed : Bool} {state : ConsumerStateRow} :
    s.turn = none → acquireConsumerState opts s.row cooldownElapsed = some state →
    TurnStep c opts l s (.acquire cooldownElapsed) l.claim
      { s with turn := some ⟨l.xacts.nextXid, state, .acquired⟩ }
  | acquireSkip {cooldownElapsed : Bool} :
    s.turn = none → acquireConsumerState opts s.row cooldownElapsed = none →
    TurnStep c opts l s (.acquire cooldownElapsed) l.claim
      { s with turn := some ⟨l.xacts.nextXid, s.row, .skipped⟩ }
  | readXmin {xid : ℕ} {state : ConsumerStateRow} :
    s.turn = some ⟨xid, state, .acquired⟩ →
    TurnStep c opts l s .readXmin l { s with turn := some ⟨xid, state,
      .xminRead (if state.pendingGaps.isEmpty then 0 else l.xacts.xmin)⟩ }
  | fetch {xid xminNow : ℕ} {state : ConsumerStateRow} :
    s.turn = some ⟨xid, state, .xminRead xminNow⟩ →
    TurnStep c opts l s .fetch l { s with turn := some ⟨xid, state, .fetched xminNow
      (selectPendingAndNewEventRows l.visibleRows state.lastProcessedEventId state.pendingGaps
        opts.batchSize (pendingFetchLimit c opts.batchSize))⟩ }
  | deliverNothing {xid xminNow : ℕ} {state : ConsumerStateRow} {answers : HandlerAnswers} :
    s.turn = some ⟨xid, state, .fetched xminNow []⟩ →
    (burntAndSurviving c opts state xminNow []).1 = [] →
    TurnStep c opts l s (.deliver answers) l { s with turn := some ⟨xid, state, .skipped⟩ }
  | deliver {xid xminNow : ℕ} {state : ConsumerStateRow} {events : List EventRow}
    {answers : HandlerAnswers} :
    s.turn = some ⟨xid, state, .fetched xminNow events⟩ →
    ¬ (events = [] ∧ (burntAndSurviving c opts state xminNow events).1 = []) →
    TurnStep c opts l s (.deliver answers) l
      { s with
        turn := some ⟨xid, state, .delivered (turnDelivery c opts l state xminNow events answers)
          (burntAndSurviving c opts state xminNow events).1
          (burntAndSurviving c opts state xminNow events).2⟩
        calls := s.calls ++ (turnDelivery c opts l state xminNow events answers).calls }
  | readXmax {xid : ℕ} {state : ConsumerStateRow} {d : TurnDelivery}
    {burntGaps survivingGaps : List PendingGapEntry} :
    s.turn = some ⟨xid, state, .delivered d burntGaps survivingGaps⟩ →
    TurnStep c opts l s .readXmax l { s with turn := some ⟨xid, state, .persisted
      (state.deliveryOutcome d.outcome
        (gapsAfterTurn survivingGaps state.lastProcessedEventId d l.xacts.xmax))
      (resolvedIds c d.calls) burntGaps⟩ }
  | commit {xid : ℕ} {state row : ConsumerStateRow} {resolved : List ℕ}
    {burntGaps : List PendingGapEntry} :
    s.turn = some ⟨xid, state, .persisted row resolved burntGaps⟩ →
    TurnStep c opts l s .commit (l.commit xid)
      { s with row, turn := none, resolved := s.resolved ++ resolved,
               burnt := s.burnt ++ burntGaps }
  | commitSkipped {xid : ℕ} {state : ConsumerStateRow} :
    s.turn = some ⟨xid, state, .skipped⟩ →
    TurnStep c opts l s .commit (l.commit xid) { s with row := state, turn := none }
  | abort {t : Turn} :
    s.turn = some t → TurnStep c opts l s .abort (l.abort t.xid) { s with turn := none }
  | recordFailure {errorMessage : String} {cursorBeforePass : Option ℕ} :
    s.turn = none →
    TurnStep c opts l s (.recordFailure errorMessage cursorBeforePass)
      (l.claim.commit l.xacts.nextXid)
      { s with row := { s.row with lastError := some errorMessage } }

/-- A step goes by one of the rules. -/
theorem TurnStep.of_turnStep {c : EventConsumer} {opts : DispatcherOptions} {l l' : Log}
    {s s' : ConsumerSlot} {a : TurnAct} (h : turnStep c opts l s a = some (l', s')) :
    TurnStep c opts l s a l' s' := by
  cases a with
  | acquire cool =>
    simp only [turnStep] at h
    split at h
    · cases h
    · rename_i hn
      cases ha : acquireConsumerState opts s.row cool with
      | none =>
        rw [ha] at h
        cases h
        exact .acquireSkip hn ha
      | some state =>
        rw [ha] at h
        cases h
        exact .acquire hn ha
  | readXmin =>
    simp only [turnStep] at h
    split at h <;> cases h
    rename_i ht
    exact .readXmin ht
  | fetch =>
    simp only [turnStep] at h
    split at h <;> cases h
    rename_i ht
    exact .fetch ht
  | deliver answers =>
    simp only [turnStep] at h
    split at h
    · rename_i events ht
      simp only [Bool.and_eq_true, List.isEmpty_iff] at h
      split at h <;> cases h
      · rename_i he
        obtain ⟨rfl, hb⟩ := he
        exact .deliverNothing ht hb
      · rename_i he
        exact .deliver ht he
    · cases h
  | readXmax =>
    simp only [turnStep] at h
    split at h <;> cases h
    rename_i ht
    exact .readXmax ht
  | commit =>
    simp only [turnStep] at h
    split at h <;> cases h
    · rename_i ht
      exact .commit ht
    · rename_i ht
      exact .commitSkipped ht
  | abort =>
    obtain ⟨t, ht, h⟩ := Option.map_eq_some_iff.1 h
    cases h
    exact .abort ht
  | recordFailure msg cur =>
    simp only [turnStep, Option.ite_none_right_eq_some, Bool.and_eq_true,
      Option.isNone_iff_eq_none] at h
    obtain ⟨⟨hn, _⟩, h⟩ := h
    cases h
    exact .recordFailure hn

/-! ## The gaps a turn writes -/

section
variable {c : EventConsumer} {d : TurnDelivery} {survivingGaps : List PendingGapEntry}
  {oldCursor xmaxNow : ℕ}

@[simp] theorem mem_gapEntries {bounds : List (ℕ × ℕ)} {g : PendingGapEntry} :
    g ∈ gapEntries xmaxNow bounds ↔ (g.fromId, g.toId) ∈ bounds ∧ g.xmax = xmaxNow := by
  simp only [gapEntries, List.mem_map, Prod.exists]
  constructor
  · rintro ⟨f, t, hm, rfl⟩
    exact ⟨hm, rfl⟩
  · rintro ⟨hm, rfl⟩
    exact ⟨_, _, hm, rfl⟩

/-- The ranges between ascending ids are ordered and cover the ids in between. -/
theorem newGapBounds_spec (xmaxNow : ℕ) : ∀ (ids : List ℕ) (prev : ℕ), ids.Pairwise (· < ·) →
    (∀ id ∈ ids, prev < id) →
    Ordered (gapEntries xmaxNow (newGapBounds prev ids)) ∧
    (∀ g ∈ gapEntries xmaxNow (newGapBounds prev ids), prev < g.fromId) ∧
    ∀ id, Covers (gapEntries xmaxNow (newGapBounds prev ids)) id ↔
      prev < id ∧ id ∉ ids ∧ ∃ w ∈ ids, id < w
  | [], prev, _, _ => ⟨ordered_nil, by simp [newGapBounds], by simp [newGapBounds, gapEntries]⟩
  | i :: ids, prev, hs, hp => by
    rw [List.pairwise_cons] at hs
    have hi := hp i (.head _)
    have ⟨ho, hf, hc⟩ := newGapBounds_spec xmaxNow ids i hs.2 hs.1
    have hlt : ∀ id, (∃ w ∈ i :: ids, id < w) ↔ id < i ∨ ∃ w ∈ ids, id < w := by simp
    have hnot : ∀ id, id ≤ i → id ∉ ids := fun id hle hm => by
      have := hs.1 id hm
      omega
    have hcov : ∀ id, prev < id ∧ id ∉ i :: ids ∧ (∃ w ∈ i :: ids, id < w) ↔
        (prev < id ∧ id < i) ∨ Covers (gapEntries xmaxNow (newGapBounds i ids)) id := fun id => by
      rw [hc, hlt, List.mem_cons]
      constructor
      · rintro ⟨h₁, h₂, h₃⟩
        rcases Nat.lt_or_ge id i with h | h
        · exact .inl ⟨h₁, h⟩
        · exact .inr ⟨by omega, fun hm => h₂ (.inr hm), h₃.resolve_left (by omega)⟩
      · rintro (⟨h₁, h₂⟩ | ⟨h₁, h₂, h₃⟩)
        · exact ⟨h₁, not_or.2 ⟨by omega, hnot id (by omega)⟩, .inl h₂⟩
        · exact ⟨by omega, not_or.2 ⟨by omega, h₂⟩, .inr h₃⟩
    unfold newGapBounds
    split
    · have hcons : ∀ bounds, gapEntries xmaxNow ((prev + 1, i - 1) :: bounds) =
          ⟨prev + 1, i - 1, xmaxNow⟩ :: gapEntries xmaxNow bounds := fun _ => rfl
      rw [hcons]
      refine ⟨ordered_cons.2 ⟨?_, fun g hg => ?_, ho⟩, fun g hg => ?_, fun id => ?_⟩
      · simp only [span_lo, span_hi]
        omega
      · have := hf g hg
        simp only [Before, span_lo, span_hi]
        omega
      · cases hg with
        | head => exact Nat.lt_succ_self _
        | tail _ hg => exact hi.trans (hf g hg)
      · rw [covers_cons, hcov, mem_entry]
        dsimp only
        exact or_congr (by omega) .rfl
    · refine ⟨ho, fun g hg => hi.trans (hf g hg), fun id => ?_⟩
      rw [hcov]
      exact ⟨.inr, fun h => h.resolve_left (by omega)⟩

/-- The window's ids ascend, and they are the new events the cursor moved over. -/
theorem newWindowIds_spec (oldCursor : ℕ) (hs : d.deliverable.Pairwise fun a b => a.id < b.id) :
    (newWindowIds oldCursor d).Pairwise (· < ·) ∧ ∀ id, id ∈ newWindowIds oldCursor d ↔
      (∃ e ∈ d.deliverable, e.id = id) ∧ oldCursor < id ∧ id ≤ d.outcome.cursor := by
  refine ⟨(List.pairwise_map.2 hs).sublist List.filter_sublist, fun id => ?_⟩
  simp [newWindowIds]

variable (hd : DeliverySpec c oldCursor d.deliverable d.outcome d.calls)
  (hs : d.deliverable.Pairwise fun a b => a.id < b.id)
include hd hs

/-- The new entries do not overlap and cover the ids the cursor moved over without resolving. -/
theorem newBounds_spec (xmaxNow : ℕ) :
    (∀ g ∈ gapEntries xmaxNow (newBounds oldCursor d),
      oldCursor < g.fromId ∧ g.fromId ≤ g.toId ∧ g.toId ≤ d.outcome.cursor) ∧
    (gapEntries xmaxNow (newBounds oldCursor d)).Pairwise Apart ∧
    ∀ id, Covers (gapEntries xmaxNow (newBounds oldCursor d)) id ↔
      oldCursor < id ∧ id ≤ d.outcome.cursor ∧ id ∉ resolvedIds c d.calls := by
  obtain ⟨hws, hw⟩ := newWindowIds_spec oldCursor hs
  obtain ⟨ho, hf, hc⟩ := newGapBounds_spec xmaxNow (newWindowIds oldCursor d) oldCursor hws
    fun id hid => ((hw id).1 hid).2.1
  have happ : gapEntries xmaxNow (newBounds oldCursor d) =
      gapEntries xmaxNow (newGapBounds oldCursor (newWindowIds oldCursor d)) ++
        d.outcome.heldNewIds.map fun id => ⟨id, id, xmaxNow⟩ := by
    simp [gapEntries, newBounds]
  have hheld : ∀ id, Covers (d.outcome.heldNewIds.map fun id => (⟨id, id, xmaxNow⟩ :
      PendingGapEntry)) id ↔ id ∈ d.outcome.heldNewIds := fun id => by
    simp only [Covers, List.mem_map, exists_exists_and_eq_and, mem_entry]
    exact ⟨by rintro ⟨i, hi, h₁, h₂⟩; exact (Nat.le_antisymm h₁ h₂) ▸ hi, fun h => ⟨id, h, le_refl _, le_refl _⟩⟩
  have hcov : ∀ id, Covers (gapEntries xmaxNow (newBounds oldCursor d)) id ↔
      oldCursor < id ∧ id ≤ d.outcome.cursor ∧ id ∉ resolvedIds c d.calls := fun id => by
    rw [happ, covers_append, hheld, hc]
    constructor
    · rintro (⟨h₁, h₂, w, hwm, h₃⟩ | h)
      · have hle := ((hw w).1 hwm).2.2
        refine ⟨h₁, by omega, fun hr => h₂ ((hw id).2 ?_)⟩
        exact ⟨(hd.resolved id hr).1, h₁, (hd.resolved id hr).2⟩
      · obtain ⟨h₁, h₂, h₃, -⟩ := hd.held id h
        exact ⟨h₁, h₂, h₃⟩
    · rintro ⟨h₁, h₂, h₃⟩
      by_cases hm : id ∈ newWindowIds oldCursor d
      · obtain ⟨⟨e, he, rfl⟩, _⟩ := (hw id).1 hm
        exact .inr ((hd.passed e he h₁ h₂).resolve_left h₃)
      · -- the cursor itself is in the window, so the id lies before it
        have hcur : d.outcome.cursor ∈ newWindowIds oldCursor d :=
          (hw _).2 ⟨hd.cursor_mem.resolve_left (by omega), by omega, le_refl _⟩
        have hne : id ≠ d.outcome.cursor := fun h => hm (h ▸ hcur)
        exact .inl ⟨h₁, hm, d.outcome.cursor, hcur, by omega⟩
  have hle : ∀ g ∈ gapEntries xmaxNow (newBounds oldCursor d), g.fromId ≤ g.toId := by
    intro g hg
    rw [happ, List.mem_append, List.mem_map] at hg
    rcases hg with hg | ⟨_, _, rfl⟩
    · exact ho.nonempty g hg
    · exact le_refl _
  refine ⟨fun g hg => ?_, ?_, hcov⟩
  · have h := hle g hg
    have h₁ := (hcov g.fromId).1 ⟨g, hg, le_refl _, h⟩
    have h₂ := (hcov g.toId).1 ⟨g, hg, h, le_refl _⟩
    exact ⟨h₁.1, h, h₂.2.1⟩
  · rw [happ]
    refine List.pairwise_append.2 ⟨ho.apart, List.pairwise_map.2 (hd.held_sorted.imp .inl), ?_⟩
    intro g hg p hp
    obtain ⟨i, hi, rfl⟩ := List.mem_map.1 hp
    -- a held id is in the window, and no range between window ids contains one
    have hni : ¬ Mem g i := fun hm => by
      obtain ⟨h₁, h₂, -, h₃⟩ := hd.held i hi
      exact ((hc i).1 ⟨g, hg, hm⟩).2.1 ((hw i).2 ⟨h₃, h₁, h₂⟩)
    have hne := ho.nonempty g hg
    simp only [mem_entry, Apart, Before, span_lo, span_hi] at hni hne ⊢
    omega

/-- The gaps a turn writes: ordered, below the new cursor, and exactly the ids that survived or
that the cursor moved over, less those resolved. No bound is lowered. -/
theorem gapsAfterTurn_spec (xmaxNow : ℕ) (ho : Ordered survivingGaps)
    (hb : ∀ g ∈ survivingGaps, g.toId ≤ oldCursor) :
    Ordered (gapsAfterTurn survivingGaps oldCursor d xmaxNow) ∧
    (∀ g ∈ gapsAfterTurn survivingGaps oldCursor d xmaxNow, g.toId ≤ d.outcome.cursor) ∧
    (∀ id, Covers (gapsAfterTurn survivingGaps oldCursor d xmaxNow) id ↔
      (Covers survivingGaps id ∨ oldCursor < id ∧ id ≤ d.outcome.cursor) ∧
        id ∉ resolvedIds c d.calls) ∧
    ∀ g ∈ gapsAfterTurn survivingGaps oldCursor d xmaxNow, ∀ id, Mem g id →
      CoversBelow survivingGaps id g.xmax ∨
        Covers (gapEntries xmaxNow (newBounds oldCursor d)) id ∧ xmaxNow ≤ g.xmax := by
  have ⟨hnb, hna, hnc⟩ := newBounds_spec hd hs xmaxNow
  set kept := survivingGaps.flatMap
    (fun gap => splitRangeExcludingIds gap d.outcome.resolvedPendingIds) with hkept
  have hk : Ordered kept := ordered_splitRanges ho
  have hkb : ∀ g ∈ kept, g.toId ≤ oldCursor := fun g hg => by
    obtain ⟨g', hg', _, h₂, _⟩ := mem_splitRanges ho hg
    exact h₂.trans (hb g' hg')
  have hcov : ∀ id, Covers (kept ++ gapEntries xmaxNow (newBounds oldCursor d)) id ↔
      (Covers survivingGaps id ∨ oldCursor < id ∧ id ≤ d.outcome.cursor) ∧
        id ∉ resolvedIds c d.calls := fun id => by
    rw [covers_append, covers_splitRanges ho, hnc, hd.pending]
    constructor
    · rintro (⟨h₁, h₂⟩ | ⟨h₁, h₂, h₃⟩)
      · obtain ⟨g, hg, hm⟩ := h₁
        have := hb g hg
        rw [mem_entry] at hm
        exact ⟨.inl ⟨g, hg, hm⟩, fun h => h₂ ⟨h, by omega⟩⟩
      · exact ⟨.inr ⟨h₁, h₂⟩, h₃⟩
    · rintro ⟨h₁ | h₁, h₂⟩
      · exact .inl ⟨h₁, fun h => h₂ h.1⟩
      · exact .inr ⟨h₁.1, h₁.2, h₂⟩
  have ⟨hm₁, hm₂, hm₃⟩ := mergeContiguousGapRanges_spec
    (kept ++ gapEntries xmaxNow (newBounds oldCursor d))
    (fun g hg => (List.mem_append.1 hg).elim (hk.nonempty g) fun hg => (hnb g hg).2.1)
    (List.pairwise_append.2 ⟨hk.apart, hna, fun g hg g' hg' => .inl <| by
      have h₁ := hkb g hg
      have h₂ := (hnb g' hg').1
      simp only [Before, span_lo, span_hi]
      omega⟩)
  have hall : ∀ id, Covers (gapsAfterTurn survivingGaps oldCursor d xmaxNow) id ↔
      (Covers survivingGaps id ∨ oldCursor < id ∧ id ≤ d.outcome.cursor) ∧
        id ∉ resolvedIds c d.calls := fun id => (hm₂ id).trans (hcov id)
  refine ⟨hm₁, fun g hg => ?_, hall, fun g hg id hid => ?_⟩
  · have := (hall g.toId).1 ⟨g, hg, hm₁.nonempty g hg, le_refl _⟩
    rcases this.1 with ⟨g', hg', hm⟩ | h
    · have h₁ := hb g' hg'
      have h₂ := hd.cursor_ge
      rw [mem_entry] at hm
      omega
    · exact h.2
  · obtain ⟨g', hg', hm, hx⟩ := hm₃ g hg id hid
    rcases List.mem_append.1 hg' with hg' | hg'
    · obtain ⟨g'', hg'', h₁, h₂, h₃⟩ := mem_splitRanges ho hg'
      rw [mem_entry] at hm
      exact .inl ⟨g'', hg'', ⟨by simp only [span_lo]; omega, by simp only [span_hi]; omega⟩, h₃ ▸ hx⟩
    · exact .inr ⟨⟨g', hg', hm⟩, (mem_gapEntries.1 hg').2 ▸ hx⟩

end

end Kumiko
