import Kumiko.EventStore.Log
import Kumiko.Pipeline.PendingGapRanges

/-!
# One consumer's delivery turn

The part of a turn between its fetch and its write, `pipeline/event-dispatcher-delivery.ts`. What the handlers
answer is a parameter (`HandlerAnswers`), and every call is recorded (`HandlerCall`). A batch handler takes all
events in one call and may hold some back; otherwise, and when the batch call throws, the events go one by one
up to the first failure that is not skipped. Both satisfy `DeliverySpec`.
-/

namespace Kumiko

/-- Reference: `ConsumerStatuses` (`pipeline/event-consumer-state.ts`). -/
inductive ConsumerStatus
  | idle | processing | dead | disabled
  deriving DecidableEq

/-- A row of `kumiko_event_consumers`. Reference: `ConsumerStateRowShape`. -/
structure ConsumerStateRow where
  lastProcessedEventId : ℕ
  status : ConsumerStatus
  attempts : ℕ
  rearmCount : ℕ
  pendingGaps : List PendingGapEntry
  lastFailedEventId : Option ℕ
  lastError : Option String

/-- What a handler throws. -/
structure HandlerError where
  errorClass : String
  message : String

/-- Reference: `EventConsumerErrorPolicy` (`pipeline/event-dispatcher.ts`). -/
structure ErrorPolicy where
  maxAttempts : Option ℕ
  skipApplyErrors : Bool
  isTransientError : HandlerError → Bool

/-- What the dispatcher reads of a consumer's definition. Reference: `EventConsumer`. -/
structure EventConsumer where
  /-- The consumer wires a batch handler. -/
  batchHandler : Bool
  errorPolicy : Option ErrorPolicy

/-- Reference: `EventDispatcherOptions`. -/
structure DispatcherOptions where
  batchSize : ℕ
  maxAttempts : ℕ
  maxRearmCount : ℕ
  maxPendingGapRanges : ℕ

namespace EventConsumer

/-- `consumer.errorPolicy?.maxAttempts ?? maxAttempts`. -/
def effectiveMaxAttempts (c : EventConsumer) (maxAttempts : ℕ) : ℕ :=
  (c.errorPolicy.bind (·.maxAttempts)).getD maxAttempts

/-- `consumer.errorPolicy?.skipApplyErrors`. -/
def skipApplyErrors (c : EventConsumer) : Bool := c.errorPolicy.any (·.skipApplyErrors)

/-- `consumer.errorPolicy?.isTransientError?.(e)`. -/
def isTransientError (c : EventConsumer) (e : HandlerError) : Bool :=
  c.errorPolicy.any (·.isTransientError e)

end EventConsumer

/-- One call of `BatchTurnControl.holdForRetry`. -/
structure HoldCall where
  eventIds : List ℕ
  reason : String
  stillBackingOff : Bool

/-- What the consumer's handlers answer in one turn: the holds of a batch call or its error, and
for each event whether its own call throws. -/
structure HandlerAnswers where
  batch : Except HandlerError (List HoldCall)
  event : EventRow → Option HandlerError

/-- A handler call of a turn and its answer. -/
inductive HandlerCall
  | batch (events : List EventRow) (answer : Except HandlerError (List HoldCall))
  | event (row : EventRow) (answer : Option HandlerError)

/-- The ids held by the calls of `holdForRetry`. -/
def heldIds (holds : List HoldCall) : List ℕ := holds.flatMap (·.eventIds)

namespace HandlerCall

/-- The events handed over. -/
def events : HandlerCall → List EventRow
  | batch es _ => es
  | event row _ => [row]

/-- The ids the call delivered, or skipped by the consumer's error policy. -/
def resolvedIds (c : EventConsumer) : HandlerCall → List ℕ
  | batch es (.ok holds) => (es.filter fun row => row.id ∉ heldIds holds).map (·.id)
  | batch _ (.error _) => []
  | event row none => [row.id]
  | event row (some _) => if c.skipApplyErrors then [row.id] else []

end HandlerCall

/-- The ids a list of calls delivered or skipped. -/
def resolvedIds (c : EventConsumer) (calls : List HandlerCall) : List ℕ :=
  calls.flatMap (·.resolvedIds c)

/-- Reference: `DeliveryOutcome`. -/
structure DeliveryOutcome where
  cursor : ℕ
  attempts : ℕ
  lastError : Option String
  deadLettered : Bool
  processed : ℕ
  failed : ℕ
  failedEventId : Option ℕ
  resolvedPendingIds : List ℕ
  heldNewIds : List ℕ
  heldOnlyWhileBackingOff : Bool

/-- The closure `resolve` of `deliverEvents`: a pending row resolves its gap and never moves the
cursor backward. -/
def DeliveryOutcome.resolve (o : DeliveryOutcome) (startCursor id : ℕ) : DeliveryOutcome :=
  { o with
    cursor := if id > o.cursor then id else o.cursor
    resolvedPendingIds :=
      if id ≤ startCursor then o.resolvedPendingIds ++ [id] else o.resolvedPendingIds
    attempts := 0
    lastError := none }

/-- The per-event loop of `deliverEvents`, with the calls it makes. -/
def deliverEach (c : EventConsumer) (maxAttempts startCursor : ℕ)
    (answer : EventRow → Option HandlerError) :
    DeliveryOutcome → List EventRow → DeliveryOutcome × List HandlerCall
  | o, [] => (o, [])
  | o, row :: rows =>
    match answer row with
    | none =>
      let rest := deliverEach c maxAttempts startCursor answer
        { o.resolve startCursor row.id with processed := o.processed + 1 } rows
      (rest.1, .event row none :: rest.2)
    | some e =>
      if c.skipApplyErrors then
        let rest := deliverEach c maxAttempts startCursor answer
          { o.resolve startCursor row.id with failed := o.failed + 1 } rows
        (rest.1, .event row (some e) :: rest.2)
      else
        let o := { o with failed := o.failed + 1, lastError := some e.message,
                          failedEventId := some row.id }
        (if c.isTransientError e then o
         else { o with
           attempts := o.attempts + 1
           deadLettered :=
             if o.attempts + 1 ≥ c.effectiveMaxAttempts maxAttempts then true
             else o.deadLettered },
         [.event row (some e)])

/-- Held rows count as failed, but the cursor still moves past them. Reference:
`outcomeOfAppliedBatch`, with `held` and `heldReasons` of `tryApplyBatch`. -/
def outcomeOfAppliedBatch (events : List EventRow) (state : ConsumerStateRow)
    (holds : List HoldCall) : DeliveryOutcome :=
  let startCursor := state.lastProcessedEventId
  let deliveredIds := (events.filter fun row => row.id ∉ heldIds holds).map (·.id)
  let heldIds := (events.filter fun row => row.id ∈ heldIds holds).map (·.id)
  let newIds := (events.map (·.id)).filter fun id => id > startCursor
  let anyDelivered := !deliveredIds.isEmpty
  let failedEventId := heldIds.head?
  let failedReason := failedEventId.bind fun id =>
    (holds.find? fun hold => id ∈ hold.eventIds).map (·.reason)
  { cursor := newIds.getLast?.getD startCursor
    attempts := if anyDelivered then 0 else state.attempts
    lastError := failedReason.or (if anyDelivered then none else state.lastError)
    deadLettered := false
    processed := deliveredIds.length
    failed := heldIds.length
    failedEventId
    resolvedPendingIds := deliveredIds.filter fun id => id ≤ startCursor
    heldNewIds := heldIds.filter fun id => id > startCursor
    heldOnlyWhileBackingOff := !heldIds.isEmpty && !holds.any fun hold => !hold.stillBackingOff }

/-- The outcome a turn starts from: nothing delivered yet. -/
def DeliveryOutcome.start (state : ConsumerStateRow) (failedEventId : Option ℕ) :
    DeliveryOutcome :=
  { cursor := state.lastProcessedEventId, attempts := state.attempts, lastError := state.lastError,
    deadLettered := false, processed := 0, failed := 0, failedEventId, resolvedPendingIds := [],
    heldNewIds := [], heldOnlyWhileBackingOff := false }

/-- The batch handler first, the per-event loop without one or when its call throws. Reference:
`deliverEvents`. -/
def deliverEvents (c : EventConsumer) (events : List EventRow) (answers : HandlerAnswers)
    (maxAttempts : ℕ) (state : ConsumerStateRow) : DeliveryOutcome × List HandlerCall :=
  let each := deliverEach c maxAttempts state.lastProcessedEventId answers.event
    (.start state none) events
  if c.batchHandler && !events.isEmpty then
    match answers.batch with
    | .ok holds => (outcomeOfAppliedBatch events state holds, [.batch events (.ok holds)])
    | .error e => (each.1, .batch events (.error e) :: each.2)
  else each

/-- Reference: `pendingFetchLimit`. -/
def pendingFetchLimit (c : EventConsumer) (batchSize : ℕ) : ℕ :=
  if !c.batchHandler then batchSize else max 1 (batchSize / 2)

/-- Reference: `isIntakePausedByPendingGapLimit`. -/
def isIntakePausedByPendingGapLimit (c : EventConsumer)
    (pendingGapCount maxPendingGapRanges : ℕ) : Bool :=
  c.batchHandler && pendingGapCount ≥ maxPendingGapRanges

/-- The pending ids of a fetch, those at or below the cursor. -/
def pendingIdsOf (events : List EventRow) (cursor : ℕ) : List ℕ :=
  (events.filter fun event => event.id ≤ cursor).map (·.id)

/-- The id above which the pending events of a capped fetch were left out, when the consumer is a
batch consumer and its fetch was capped. -/
def leftOutAbove (c : EventConsumer) (events : List EventRow) (cursor pendingLimit : ℕ) :
    Option ℕ :=
  if !c.batchHandler then none
  else if (pendingIdsOf events cursor).length < pendingLimit then none
  else (pendingIdsOf events cursor).getLast?

/-- The answer of the query for the tenants left out takes the place of the query. Reference:
`withholdNewEventsOfTenantsWithUnfetchedPending`. -/
def withholdNewEventsOfTenantsWithUnfetchedPending (c : EventConsumer) (events : List EventRow)
    (cursor pendingLimit : ℕ) (tenantIdsInRangesAbove : ℕ → List String) : List EventRow :=
  match leftOutAbove c events cursor pendingLimit with
  | none => events
  | some lastPendingId =>
    let tenantsLeftOut := tenantIdsInRangesAbove lastPendingId
    if tenantsLeftOut.isEmpty then events
    else events.filter fun event => event.id ≤ cursor || event.tenantId ∉ tenantsLeftOut

/-- Reference: `escalateIntakePausedOutcome`. -/
def escalateIntakePausedOutcome (outcome : DeliveryOutcome) (state : ConsumerStateRow)
    (deliverable : List EventRow)
    (pendingGapCount maxPendingGapRanges effectiveMaxAttempts : ℕ) : DeliveryOutcome :=
  let firstHeld := outcome.failedEventId.or state.lastFailedEventId
  let heldTenant :=
    ((deliverable.find? fun event => some event.id = firstHeld).map (·.tenantId)).getD "unknown"
  let firstHeldText := (firstHeld.map toString).getD "unknown"
  let lastError := some
    (s!"{pendingGapCount} pending gap ranges reached the limit of {maxPendingGapRanges}; " ++
      s!"no new events are taken until the held events of tenant {heldTenant} drain " ++
      s!"(first held event {firstHeldText})")
  if outcome.processed > 0 || outcome.heldOnlyWhileBackingOff then { outcome with lastError }
  else
    let attempts := state.attempts + 1
    { outcome with
      attempts, lastError, failedEventId := firstHeld
      deadLettered := attempts ≥ effectiveMaxAttempts }

/-- What `deliverConsumerTurn` returns, and the calls it made. -/
structure TurnDelivery where
  deliverable : List EventRow
  outcome : DeliveryOutcome
  calls : List HandlerCall

/-- Reference: `deliverConsumerTurn`. -/
def deliverConsumerTurn (c : EventConsumer) (opts : DispatcherOptions) (state : ConsumerStateRow)
    (events : List EventRow) (pendingLimit pendingGapCount : ℕ)
    (tenantIdsInRangesAbove : ℕ → List String) (answers : HandlerAnswers) : TurnDelivery :=
  let cursor := state.lastProcessedEventId
  let intakePaused := isIntakePausedByPendingGapLimit c pendingGapCount opts.maxPendingGapRanges
  let withheld := withholdNewEventsOfTenantsWithUnfetchedPending c events cursor pendingLimit
    tenantIdsInRangesAbove
  let deliverable := if intakePaused then withheld.filter fun event => event.id ≤ cursor
    else withheld
  let delivered := if deliverable.isEmpty then (.start state state.lastFailedEventId, [])
    else deliverEvents c deliverable answers opts.maxAttempts state
  { deliverable
    outcome := if intakePaused then
        escalateIntakePausedOutcome delivered.1 state deliverable pendingGapCount
          opts.maxPendingGapRanges (c.effectiveMaxAttempts opts.maxAttempts)
      else delivered.1
    calls := delivered.2 }

/-! ## What a delivery does -/

@[simp] theorem resolvedIds_nil {c : EventConsumer} : resolvedIds c [] = [] := rfl

@[simp] theorem resolvedIds_cons {c : EventConsumer} {call : HandlerCall}
    {calls : List HandlerCall} :
    resolvedIds c (call :: calls) = call.resolvedIds c ++ resolvedIds c calls := by
  simp [resolvedIds]

/-- What a delivery of `events` does for a consumer whose cursor is at `start`, whichever handler
the events went through. -/
structure DeliverySpec (c : EventConsumer) (start : ℕ) (events : List EventRow)
    (o : DeliveryOutcome) (calls : List HandlerCall) : Prop where
  /-- The cursor never moves backward. -/
  cursor_ge : start ≤ o.cursor
  /-- It moves to an event of the delivery. -/
  cursor_mem : o.cursor = start ∨ ∃ e ∈ events, e.id = o.cursor
  /-- A new event the cursor has passed was delivered, skipped or held. -/
  passed : ∀ e ∈ events, start < e.id → e.id ≤ o.cursor →
    e.id ∈ resolvedIds c calls ∨ e.id ∈ o.heldNewIds
  /-- What was delivered or skipped is an event of the delivery and not above the cursor. -/
  resolved : ∀ id ∈ resolvedIds c calls, (∃ e ∈ events, e.id = id) ∧ id ≤ o.cursor
  /-- Nothing is delivered or skipped twice, and all in the order of the ids. -/
  resolved_sorted : (resolvedIds c calls).Pairwise (· < ·)
  /-- The pending ids reported are the pending ids delivered or skipped. -/
  pending : ∀ id, id ∈ o.resolvedPendingIds ↔ id ∈ resolvedIds c calls ∧ id ≤ start
  /-- A held id is a new event the cursor has passed, neither delivered nor skipped. -/
  held : ∀ id ∈ o.heldNewIds, start < id ∧ id ≤ o.cursor ∧ id ∉ resolvedIds c calls ∧
    ∃ e ∈ events, e.id = id
  /-- Held ids ascend. -/
  held_sorted : o.heldNewIds.Pairwise (· < ·)
  /-- Only events of the delivery are handed over. -/
  calls_events : ∀ call ∈ calls, ∀ e ∈ call.events, e ∈ events

section
variable {o : DeliveryOutcome} {rows : List EventRow}

/-- The loop's step: the row is resolved and the loop goes on, or it is not and the loop stops with
the cursor and the lists it had. -/
theorem deliverEach_cons (c : EventConsumer) (maxAttempts start : ℕ)
    (answer : EventRow → Option HandlerError) (o : DeliveryOutcome) (row : EventRow)
    (rows : List EventRow) :
    (∃ o' a, o'.cursor = max o.cursor row.id ∧ o'.heldNewIds = o.heldNewIds ∧
      (∀ id, id ∈ o'.resolvedPendingIds ↔
        id ∈ o.resolvedPendingIds ∨ id = row.id ∧ row.id ≤ start) ∧
      (HandlerCall.event row a).resolvedIds c = [row.id] ∧
      deliverEach c maxAttempts start answer o (row :: rows) =
        ((deliverEach c maxAttempts start answer o' rows).1,
          .event row a :: (deliverEach c maxAttempts start answer o' rows).2)) ∨
    ∃ o' a, o'.cursor = o.cursor ∧ o'.heldNewIds = o.heldNewIds ∧
      o'.resolvedPendingIds = o.resolvedPendingIds ∧ (HandlerCall.event row a).resolvedIds c = [] ∧
      deliverEach c maxAttempts start answer o (row :: rows) = (o', [.event row a]) := by
  have hcur : ∀ o : DeliveryOutcome, (o.resolve start row.id).cursor = max o.cursor row.id := by
    intro o
    simp only [DeliveryOutcome.resolve]
    split <;> omega
  have hpend : ∀ (o : DeliveryOutcome) (id : ℕ), id ∈ (o.resolve start row.id).resolvedPendingIds ↔
      id ∈ o.resolvedPendingIds ∨ id = row.id ∧ row.id ≤ start := by
    intro o id
    simp only [DeliveryOutcome.resolve]
    split <;> simp_all
  cases h : answer row with
  | none =>
    refine .inl ⟨{ o.resolve start row.id with processed := o.processed + 1 }, none, hcur o, rfl,
      hpend o, rfl, ?_⟩
    simp only [deliverEach, h]
  | some e =>
    cases hskip : c.skipApplyErrors with
    | true =>
      refine .inl ⟨{ o.resolve start row.id with failed := o.failed + 1 }, some e, hcur o, rfl,
        hpend o, by simp [HandlerCall.resolvedIds, hskip], ?_⟩
      simp only [deliverEach, h, hskip, if_true]
    | false =>
      refine .inr ?_
      simp only [deliverEach, h, hskip, Bool.false_eq_true, if_false]
      refine ⟨_, some e, ?_, ?_, ?_, by simp [HandlerCall.resolvedIds, hskip], rfl⟩ <;>
      split <;> rfl

/-- What the loop over `rows` adds to an accumulator. -/
structure EachSpec (c : EventConsumer) (start : ℕ) (rows : List EventRow) (o o' : DeliveryOutcome)
    (calls : List HandlerCall) : Prop where
  cursor_ge : o.cursor ≤ o'.cursor
  cursor_mem : o'.cursor = o.cursor ∨ ∃ e ∈ rows, e.id = o'.cursor
  passed : ∀ e ∈ rows, start < e.id → e.id ≤ o'.cursor → e.id ∈ resolvedIds c calls
  resolved : ∀ id ∈ resolvedIds c calls, (∃ e ∈ rows, e.id = id) ∧ id ≤ o'.cursor
  resolved_sorted : (resolvedIds c calls).Pairwise (· < ·)
  pending : ∀ id, id ∈ o'.resolvedPendingIds ↔
    id ∈ o.resolvedPendingIds ∨ id ∈ resolvedIds c calls ∧ id ≤ start
  held : o'.heldNewIds = o.heldNewIds
  calls_events : ∀ call ∈ calls, ∀ e ∈ call.events, e ∈ rows

/-- The loop, from any accumulator whose cursor is behind the new rows. -/
theorem deliverEach_spec (c : EventConsumer) (maxAttempts start : ℕ)
    (answer : EventRow → Option HandlerError) (hs : rows.Pairwise fun a b => a.id < b.id)
    (hb : ∀ row ∈ rows, start < row.id → o.cursor < row.id) :
    EachSpec c start rows o (deliverEach c maxAttempts start answer o rows).1
      (deliverEach c maxAttempts start answer o rows).2 := by
  induction rows generalizing o with
  | nil => exact ⟨le_refl _, .inl rfl, by simp, by simp [deliverEach], .nil, by simp [deliverEach],
      rfl, by simp [deliverEach]⟩
  | cons row rows ih =>
    rw [List.pairwise_cons] at hs
    rcases deliverEach_cons c maxAttempts start answer o row rows with
      ⟨o', a, hcur, hheld, hpend, hres, he⟩ | ⟨o', a, hcur, hheld, hpend, hres, he⟩
    · have ih := ih hs.2 (o := o') fun r hr hlt => by
        have h₁ := hb r (.tail _ hr) hlt
        have h₂ := hs.1 r hr
        omega
      have hge := ih.cursor_ge
      rw [he]
      dsimp only
      refine ⟨by omega, ?_, ?_, ?_, ?_, ?_, by rw [ih.held, hheld], ?_⟩
      · rcases ih.cursor_mem with h | ⟨e, hm, h⟩
        · rcases Nat.le_total row.id o.cursor with hle | hle
          · exact .inl (by omega)
          · exact .inr ⟨row, .head _, by omega⟩
        · exact .inr ⟨e, .tail _ hm, h⟩
      · intro e hm hlt hle
        rw [resolvedIds_cons, hres]
        cases hm with
        | head => simp
        | tail _ hm => exact List.mem_append_right _ (ih.passed e hm hlt hle)
      · intro id hid
        rw [resolvedIds_cons, hres, List.mem_append, List.mem_singleton] at hid
        rcases hid with rfl | hid
        · exact ⟨⟨row, .head _, rfl⟩, by omega⟩
        · have ⟨⟨e, hm, h⟩, hle⟩ := ih.resolved id hid
          exact ⟨⟨e, .tail _ hm, h⟩, hle⟩
      · rw [resolvedIds_cons, hres, List.singleton_append, List.pairwise_cons]
        refine ⟨fun id hid => ?_, ih.resolved_sorted⟩
        have ⟨⟨e, hm, h⟩, _⟩ := ih.resolved id hid
        exact h ▸ hs.1 e hm
      · intro id
        rw [ih.pending, hpend, resolvedIds_cons, hres, List.mem_append, List.mem_singleton]
        constructor
        · rintro ((h | ⟨rfl, h⟩) | ⟨h, hle⟩)
          · exact .inl h
          · exact .inr ⟨.inl rfl, h⟩
          · exact .inr ⟨.inr h, hle⟩
        · rintro (h | ⟨rfl | h, hle⟩)
          · exact .inl (.inl h)
          · exact .inl (.inr ⟨rfl, hle⟩)
          · exact .inr ⟨h, hle⟩
      · intro call hcall e hm
        cases hcall with
        | head =>
          rw [HandlerCall.events, List.mem_singleton] at hm
          exact hm ▸ .head _
        | tail _ hcall => exact .tail _ (ih.calls_events call hcall e hm)
    · rw [he]
      dsimp only
      have hnil : resolvedIds c [.event row a] = [] := by
        rw [resolvedIds_cons, hres, resolvedIds_nil, List.append_nil]
      refine ⟨hcur.ge, .inl hcur, ?_, by simp [hnil], by simp [hnil], by simp [hnil, hpend],
        hheld, ?_⟩
      · intro e hm hlt hle
        have := hb e hm hlt
        omega
      · intro call hcall e hm
        rw [List.mem_singleton] at hcall
        subst hcall
        rw [HandlerCall.events, List.mem_singleton] at hm
        exact hm ▸ .head _

end

section
variable {c : EventConsumer} {opts : DispatcherOptions} {maxAttempts : ℕ}
  {answers : HandlerAnswers} {state : ConsumerStateRow} {events : List EventRow}
  {holds : List HoldCall} {pendingLimit pendingGapCount : ℕ}
  {tenantIdsInRangesAbove : ℕ → List String}

/-- The last of an ascending list of ids is the largest. -/
theorem le_getLastD_of_sorted {ids : List ℕ} (hs : ids.Pairwise (· < ·)) (d : ℕ) :
    ∀ id ∈ ids, id ≤ ids.getLast?.getD d := by
  intro id hid
  obtain ⟨init, last, rfl⟩ := List.eq_nil_or_concat'  ids |>.resolve_left (List.ne_nil_of_mem hid)
  simp only [List.getLast?_append, List.getLast?_singleton, Option.some_or, Option.getD_some]
  rcases List.mem_append.1 hid with h | h
  · exact Nat.le_of_lt ((List.pairwise_append.1 hs).2.2 id h last (List.mem_singleton_self _))
  · exact (List.mem_singleton.1 h).le

/-- A batch that was applied: every row was delivered or held. -/
theorem outcomeOfAppliedBatch_spec (hs : events.Pairwise fun a b => a.id < b.id) :
    DeliverySpec c state.lastProcessedEventId events (outcomeOfAppliedBatch events state holds)
      [.batch events (.ok holds)] := by
  have hids : ((events.map (·.id)).filter fun id => id > state.lastProcessedEventId).Pairwise
      (· < ·) := (List.pairwise_map.2 hs).sublist List.filter_sublist
  have hcur : (outcomeOfAppliedBatch events state holds).cursor =
      ((events.map (·.id)).filter fun id => id > state.lastProcessedEventId).getLast?.getD
        state.lastProcessedEventId := rfl
  have hle : ∀ e ∈ events, e.id ≤ (outcomeOfAppliedBatch events state holds).cursor ∨
      e.id ≤ state.lastProcessedEventId := fun e he => by
    by_cases hlt : state.lastProcessedEventId < e.id
    · refine .inl (le_getLastD_of_sorted hids _ _ ?_)
      simpa using ⟨⟨e, he, rfl⟩, hlt⟩
    · exact .inr (Nat.le_of_not_lt hlt)
  have hmem : (outcomeOfAppliedBatch events state holds).cursor = state.lastProcessedEventId ∨
      ∃ e ∈ events, e.id = (outcomeOfAppliedBatch events state holds).cursor ∧
        state.lastProcessedEventId < e.id := by
    rw [hcur]
    cases h : ((events.map (·.id)).filter fun id => id > state.lastProcessedEventId).getLast? with
    | none => exact .inl rfl
    | some id =>
      have := List.mem_of_getLast? h
      simp only [List.mem_filter, List.mem_map, decide_eq_true_eq] at this
      obtain ⟨⟨e, he, rfl⟩, hlt⟩ := this
      exact .inr ⟨e, he, rfl, hlt⟩
  have hge : state.lastProcessedEventId ≤ (outcomeOfAppliedBatch events state holds).cursor := by
    rcases hmem with h | ⟨e, _, h, hlt⟩ <;> omega
  have hres : ∀ id, id ∈ resolvedIds c [.batch events (.ok holds)] ↔
      (∃ e ∈ events, e.id = id) ∧ id ∉ heldIds holds := fun id => by
    simp only [resolvedIds_cons, resolvedIds_nil, HandlerCall.resolvedIds, List.append_nil,
      List.mem_map, List.mem_filter, decide_eq_true_eq]
    constructor
    · rintro ⟨e, ⟨he, hh⟩, rfl⟩
      exact ⟨⟨e, he, rfl⟩, hh⟩
    · rintro ⟨⟨e, he, rfl⟩, hh⟩
      exact ⟨e, ⟨he, hh⟩, rfl⟩
  have hheld : ∀ id, id ∈ (outcomeOfAppliedBatch events state holds).heldNewIds ↔
      (∃ e ∈ events, e.id = id) ∧ id ∈ heldIds holds ∧ state.lastProcessedEventId < id :=
    fun id => by
      simp only [outcomeOfAppliedBatch, List.mem_map, List.mem_filter, decide_eq_true_eq]
      constructor
      · rintro ⟨⟨e, ⟨he, hh⟩, rfl⟩, hlt⟩
        exact ⟨⟨e, he, rfl⟩, hh, hlt⟩
      · rintro ⟨⟨e, he, rfl⟩, hh, hlt⟩
        exact ⟨⟨e, ⟨he, hh⟩, rfl⟩, hlt⟩
  refine ⟨hge, ?_, ?_, ?_, ?_, ?_, ?_, ?_, ?_⟩
  · rcases hmem with h | ⟨e, he, h, _⟩
    · exact .inl h
    · exact .inr ⟨e, he, h⟩
  · intro e he hlt _
    rw [hres, hheld]
    by_cases hh : e.id ∈ heldIds holds
    · exact .inr ⟨⟨e, he, rfl⟩, hh, hlt⟩
    · exact .inl ⟨⟨e, he, rfl⟩, hh⟩
  · intro id hid
    obtain ⟨⟨e, he, rfl⟩, _⟩ := (hres id).1 hid
    exact ⟨⟨e, he, rfl⟩, by rcases hle e he with h | h <;> omega⟩
  · rw [resolvedIds_cons, resolvedIds_nil, List.append_nil]
    exact List.pairwise_map.2 (hs.sublist List.filter_sublist)
  · intro id
    rw [hres]
    simp only [outcomeOfAppliedBatch, List.mem_map, List.mem_filter, decide_eq_true_eq]
    constructor
    · rintro ⟨⟨e, ⟨he, hh⟩, rfl⟩, hle⟩
      exact ⟨⟨⟨e, he, rfl⟩, hh⟩, hle⟩
    · rintro ⟨⟨⟨e, he, rfl⟩, hh⟩, hle⟩
      exact ⟨⟨e, ⟨he, hh⟩, rfl⟩, hle⟩
  · intro id hid
    obtain ⟨⟨e, he, rfl⟩, hh, hlt⟩ := (hheld id).1 hid
    refine ⟨hlt, by rcases hle e he with h | h <;> omega, fun h => ((hres _).1 h).2 hh, e, he, rfl⟩
  · exact (List.pairwise_map.2 (hs.sublist List.filter_sublist)).sublist List.filter_sublist
  · intro call hcall e he
    rw [List.mem_singleton] at hcall
    subst hcall
    exact he

/-- Every delivery meets the contract. -/
theorem deliverEvents_spec (hs : events.Pairwise fun a b => a.id < b.id) :
    DeliverySpec c state.lastProcessedEventId events
      (deliverEvents c events answers maxAttempts state).1
      (deliverEvents c events answers maxAttempts state).2 := by
  have each := deliverEach_spec (o := .start state none) c maxAttempts state.lastProcessedEventId
    answers.event hs fun _ _ hlt => hlt
  have hstart : (DeliveryOutcome.start state none).resolvedPendingIds = [] := rfl
  have loop : ∀ calls, resolvedIds c calls = resolvedIds c
        (deliverEach c maxAttempts state.lastProcessedEventId answers.event (.start state none)
          events).2 →
      (∀ call ∈ calls, ∀ e ∈ call.events, e ∈ events) →
      DeliverySpec c state.lastProcessedEventId events
        (deliverEach c maxAttempts state.lastProcessedEventId answers.event (.start state none)
          events).1 calls := fun calls hres hcalls =>
    { cursor_ge := each.cursor_ge
      cursor_mem := each.cursor_mem
      passed := fun e he hlt hle => .inl (hres ▸ each.passed e he hlt hle)
      resolved := hres ▸ each.resolved
      resolved_sorted := hres ▸ each.resolved_sorted
      pending := fun id => by
        rw [each.pending, hstart, hres]
        simp
      held := fun id hid => by
        rw [each.held] at hid
        cases hid
      held_sorted := by
        rw [each.held]
        exact .nil
      calls_events := hcalls }
  unfold deliverEvents
  dsimp only
  split
  · cases answers.batch with
    | ok holds => exact outcomeOfAppliedBatch_spec hs
    | error e =>
      refine loop _ (by simp [HandlerCall.resolvedIds]) fun call hcall => ?_
      cases hcall with
      | head => exact fun _ he => he
      | tail _ hcall => exact each.calls_events call hcall
  · exact loop _ rfl each.calls_events

theorem withheld_sublist : (withholdNewEventsOfTenantsWithUnfetchedPending c events
    state.lastProcessedEventId pendingLimit tenantIdsInRangesAbove).Sublist events := by
  unfold withholdNewEventsOfTenantsWithUnfetchedPending
  split
  · exact .refl _
  · dsimp only
    split
    · exact .refl _
    · exact List.filter_sublist

/-- A turn hands over events of its fetch only. -/
theorem deliverable_sublist : (deliverConsumerTurn c opts state events pendingLimit
    pendingGapCount tenantIdsInRangesAbove answers).deliverable.Sublist events := by
  simp only [deliverConsumerTurn]
  split
  · exact List.filter_sublist.trans withheld_sublist
  · exact withheld_sublist

/-- A pending event that was fetched is handed over. -/
theorem mem_deliverable {q : EventRow} (hq : q ∈ events) (hle : q.id ≤ state.lastProcessedEventId) :
    q ∈ (deliverConsumerTurn c opts state events pendingLimit pendingGapCount
      tenantIdsInRangesAbove answers).deliverable := by
  have withheld : q ∈ withholdNewEventsOfTenantsWithUnfetchedPending c events
      state.lastProcessedEventId pendingLimit tenantIdsInRangesAbove := by
    unfold withholdNewEventsOfTenantsWithUnfetchedPending
    split
    · exact hq
    · dsimp only
      split
      · exact hq
      · exact List.mem_filter.2 ⟨hq, by simp [hle]⟩
  simp only [deliverConsumerTurn]
  split
  · exact List.mem_filter.2 ⟨withheld, decide_eq_true hle⟩
  · exact withheld

/-- Escalating leaves what was delivered as it is. -/
theorem DeliverySpec.escalate {start : ℕ} {o : DeliveryOutcome} {calls : List HandlerCall}
    {deliverable : List EventRow} {count limit maxAttempts : ℕ}
    (h : DeliverySpec c start events o calls) :
    DeliverySpec c start events
      (escalateIntakePausedOutcome o state deliverable count limit maxAttempts) calls := by
  unfold escalateIntakePausedOutcome
  dsimp only
  split <;> exact ⟨h.cursor_ge, h.cursor_mem, h.passed, h.resolved, h.resolved_sorted, h.pending,
    h.held, h.held_sorted, h.calls_events⟩

/-- A turn meets the contract on what it handed over. -/
theorem deliverConsumerTurn_spec (hs : events.Pairwise fun a b => a.id < b.id) (t : TurnDelivery)
    (ht : deliverConsumerTurn c opts state events pendingLimit pendingGapCount
      tenantIdsInRangesAbove answers = t) :
    DeliverySpec c state.lastProcessedEventId t.deliverable t.outcome t.calls := by
  have hs := hs.sublist (ht ▸ deliverable_sublist : t.deliverable.Sublist events)
  have hnone : ∀ f, DeliverySpec c state.lastProcessedEventId [] (.start state f) [] := fun _ =>
    ⟨le_refl _, .inl rfl, by simp, by simp, .nil, by simp [DeliveryOutcome.start],
      by simp [DeliveryOutcome.start], .nil, by simp⟩
  subst ht
  simp only [deliverConsumerTurn] at hs ⊢
  generalize (if isIntakePausedByPendingGapLimit c pendingGapCount opts.maxPendingGapRanges = true
    then _ else _) = deliverable at hs ⊢
  have hd : ∀ p, (if deliverable.isEmpty = true then
        (DeliveryOutcome.start state state.lastFailedEventId, [])
      else deliverEvents c deliverable answers opts.maxAttempts state) = p →
      DeliverySpec c state.lastProcessedEventId deliverable p.1 p.2 := by
    rintro _ rfl
    split
    · rename_i he
      rw [List.isEmpty_iff] at he
      exact he ▸ hnone _
    · exact deliverEvents_spec hs
  split
  · exact (hd _ rfl).escalate
  · exact hd _ rfl

end

end Kumiko
