import Kumiko.Pipeline.Consumers
import Kumiko.Pipeline.NoEventLost

/-!
# Skipping a poison event

`skipPoisonEvent` of `pipeline/event-dispatcher-admin.ts` takes the event that `last_failed_event_id` names out
of its pending gap, or moves the cursor onto it. That skips the poison exactly as long as the column names an
event the consumer still owes (`FailedOwed`). A pass that processes nothing while the intake is paused may name an
event it has skipped itself (`not_skipsPoison`); without such a pass a skip is exact (`skipsPoison_of_run`).
-/

namespace Kumiko

open Span Transition

/-! ## The statements of a skip -/

/-- `MIN("id")` over the visible rows in the ranges. Reference: `selectSmallestVisibleIdInRanges`
(`db/queries/event-store.ts`). -/
def selectSmallestVisibleIdInRanges (visible : List EventRow) (pendingRanges : List PendingGapEntry) : Option ℕ :=
  ((visible.filter fun r => Covers pendingRanges r.id).map (·.id)).min?

/-- Reference: `selectNextEventIdAfter` (`db/queries/event-store.ts`). -/
def selectNextEventIdAfter (visible : List EventRow) (afterId : ℕ) : Option ℕ :=
  (sortById (visible.filter fun r => r.id > afterId)).head?.map (·.id)

/-- Delivery stops at the poison event, so ids between the cursor and it were invisible during that pass.
Reference: `invisibleWindowGap`. -/
def invisibleWindowGap (cursor poisonId xmax : ℕ) : Option PendingGapEntry :=
  if poisonId ≤ cursor + 1 then none else some ⟨cursor + 1, poisonId - 1, xmax⟩

namespace ConsumerStateRow

/-- The constant `failedIsPending` of `skipPoisonEvent`. -/
def failedIsPending (before : ConsumerStateRow) : Bool :=
  before.lastFailedEventId.any fun id => before.pendingGaps.any (rangeContainsId · id)

/-- The constant `failedIsAboveCursor` of `skipPoisonEvent`. -/
def failedIsAboveCursor (before : ConsumerStateRow) : Bool :=
  before.lastFailedEventId.any (· > before.lastProcessedEventId)

/-- The constant `pendingPoisonId` of `skipPoisonEvent`: without a recorded event that is still to be delivered,
the smallest visible pending id. -/
def pendingPoisonId (before : ConsumerStateRow) (visible : List EventRow) : Option ℕ :=
  if before.failedIsPending then before.lastFailedEventId
  else if before.failedIsAboveCursor then none
  else selectSmallestVisibleIdInRanges visible before.pendingGaps

/-- The constant `poisonId` of `skipPoisonEvent`. -/
def poisonId (before : ConsumerStateRow) (visible : List EventRow) : Option ℕ :=
  if before.failedIsAboveCursor then before.lastFailedEventId
  else selectNextEventIdAfter visible before.lastProcessedEventId

/-- Reference: `removePendingGapReturning` (`db/queries/event-consumer.ts`). -/
def removePendingGap (row : ConsumerStateRow) (newPendingGaps : List PendingGapEntry) : ConsumerStateRow :=
  { row with
    pendingGaps := newPendingGaps, status := .idle, attempts := 0, lastError := none, rearmCount := 0
    lastFailedEventId := none }

/-- Reference: `advanceConsumerPastEventReturning` (`db/queries/event-consumer.ts`). -/
def advancePastEvent (row : ConsumerStateRow) (eventId : ℕ) (pendingGaps : List PendingGapEntry) : ConsumerStateRow :=
  { row with
    lastProcessedEventId := eventId, status := .idle, attempts := 0, lastError := none, rearmCount := 0
    lastFailedEventId := none, pendingGaps }

/-- The write of `skipPoisonEvent` that takes a pending event out of its range. -/
def skipPending (before : ConsumerStateRow) (pendingPoisonId : ℕ) : ConsumerStateRow :=
  before.removePendingGap (mergeContiguousGapRanges (before.pendingGaps.flatMap fun gap =>
    if rangeContainsId gap pendingPoisonId then splitRangeExcludingIds gap [pendingPoisonId] else [gap]))

/-- The write of `skipPoisonEvent` that moves the cursor onto the event. -/
def skipAbove (before : ConsumerStateRow) (poisonId xmax : ℕ) : ConsumerStateRow :=
  before.advancePastEvent poisonId (mergeContiguousGapRanges
    (before.pendingGaps ++ (invisibleWindowGap before.lastProcessedEventId poisonId xmax).toList))

end ConsumerStateRow

/-- How far a call of `skipPoisonEvent` has come. -/
inductive SkipPhase
  /-- The row is locked. -/
  | locked
  | pendingChosen (pendingPoisonId : Option ℕ)
  | poisonChosen (poisonId : Option ℕ)
  /-- The row has been written, not yet committed, and the call returns the id it skipped. -/
  | written (row : ConsumerStateRow) (skippedEventId : Option ℕ)

/-- A call of `skipPoisonEvent`: its transaction, the row it locked and its phase. -/
structure SkipCall where
  xid : ℕ
  before : ConsumerStateRow
  phase : SkipPhase

/-- The log, one consumer, and the operator's call that holds its row. -/
structure Recovery where
  log : Log
  slot : ConsumerSlot
  skip : Option SkipCall

/-- The steps of a call of `skipPoisonEvent`. -/
inductive SkipAct
  /-- The row is locked, and rejected when it has not the required status. -/
  | lock (requireStatus : Option ConsumerStatus)
  | choosePending
  | choosePoison
  | write
  | commit
  | abort

/-- A step of a writer, of a turn, or of a recovery operation. -/
inductive RecoveryAct
  | writer (a : LogAct)
  | turn (a : TurnAct)
  | skip (a : SkipAct)
  /-- The write of `disableConsumer`, or that of `enableConsumer` and `restartConsumer`. -/
  | setStatus (disabled : Bool)

namespace Recovery

/-- The row is not locked. -/
def Free (w : Recovery) : Prop := w.slot.turn = none ∧ w.skip = none

/-- The call goes on to a phase. -/
def skipping (w : Recovery) (xid : ℕ) (before : ConsumerStateRow) (phase : SkipPhase) : Recovery :=
  { w with skip := some ⟨xid, before, phase⟩ }

end Recovery

/-- One step of a call of `skipPoisonEvent`. -/
def skipStep (w : Recovery) : SkipAct → Option Recovery
  | .lock requireStatus =>
    if w.slot.turn.isSome || w.skip.isSome then none
    else if requireStatus.all (· = w.slot.row.status) then
      some { w with log := w.log.claim, skip := some ⟨w.log.xacts.nextXid, w.slot.row, .locked⟩ }
    else some { w with log := w.log.claim.abort w.log.xacts.nextXid }
  | .choosePending =>
    match w.skip with
    | some ⟨xid, before, .locked⟩ =>
      some (w.skipping xid before (.pendingChosen (before.pendingPoisonId w.log.visibleRows)))
    | _ => none
  | .choosePoison =>
    match w.skip with
    | some ⟨xid, before, .pendingChosen none⟩ =>
      some (w.skipping xid before (.poisonChosen (before.poisonId w.log.visibleRows)))
    | _ => none
  | .write =>
    match w.skip with
    | some ⟨xid, before, .pendingChosen (some id)⟩ =>
      some (w.skipping xid before (.written (before.skipPending id) (some id)))
    | some ⟨xid, before, .poisonChosen (some id)⟩ =>
      some (w.skipping xid before (.written (before.skipAbove id w.log.xacts.xmax) (some id)))
    | some ⟨xid, before, .poisonChosen none⟩ => some (w.skipping xid before (.written before none))
    | _ => none
  | .commit =>
    match w.skip with
    | some ⟨xid, _, .written row _⟩ =>
      some { log := w.log.commit xid, slot := { w.slot with row }, skip := none }
    | _ => none
  | .abort => w.skip.map fun k => { w with log := w.log.abort k.xid, skip := none }

/-- One step of the system. A turn skips a row that is locked, the other operations wait for it. -/
def recoveryStep (c : EventConsumer) (opts : DispatcherOptions) (w : Recovery) : RecoveryAct → Option Recovery
  | .writer a => (w.log.step a).map fun log => { w with log }
  | .turn a =>
    if w.skip.isSome then none
    else (turnStep c opts w.log w.slot a).map fun r => { w with log := r.1, slot := r.2 }
  | .skip a => skipStep w a
  | .setStatus disabled =>
    if w.slot.turn.isSome || w.skip.isSome then none
    else some { w with log := w.log.statement, slot := { w.slot with row := w.slot.row.setStatus disabled } }

/-- What the steps do, one rule for each way a step can go. -/
inductive RecoveryStep (c : EventConsumer) (opts : DispatcherOptions) (w : Recovery) : RecoveryAct → Recovery → Prop
  | writer {a : LogAct} {log : Log} : w.log.step a = some log → RecoveryStep c opts w (.writer a) { w with log }
  | turn {a : TurnAct} {log : Log} {slot : ConsumerSlot} :
    w.skip = none → TurnStep c opts w.log w.slot a log slot →
    RecoveryStep c opts w (.turn a) { w with log, slot }
  | lock {requireStatus : Option ConsumerStatus} :
    w.Free → RecoveryStep c opts w (.skip (.lock requireStatus))
      { w with log := w.log.claim, skip := some ⟨w.log.xacts.nextXid, w.slot.row, .locked⟩ }
  | reject {requireStatus : Option ConsumerStatus} :
    w.Free → RecoveryStep c opts w (.skip (.lock requireStatus))
      { w with log := w.log.claim.abort w.log.xacts.nextXid }
  | choosePending {xid : ℕ} {before : ConsumerStateRow} :
    w.skip = some ⟨xid, before, .locked⟩ →
    RecoveryStep c opts w (.skip .choosePending)
      (w.skipping xid before (.pendingChosen (before.pendingPoisonId w.log.visibleRows)))
  | choosePoison {xid : ℕ} {before : ConsumerStateRow} :
    w.skip = some ⟨xid, before, .pendingChosen none⟩ →
    RecoveryStep c opts w (.skip .choosePoison)
      (w.skipping xid before (.poisonChosen (before.poisonId w.log.visibleRows)))
  | writePending {xid id : ℕ} {before : ConsumerStateRow} :
    w.skip = some ⟨xid, before, .pendingChosen (some id)⟩ →
    RecoveryStep c opts w (.skip .write) (w.skipping xid before (.written (before.skipPending id) (some id)))
  | writeAbove {xid id : ℕ} {before : ConsumerStateRow} :
    w.skip = some ⟨xid, before, .poisonChosen (some id)⟩ →
    RecoveryStep c opts w (.skip .write)
      (w.skipping xid before (.written (before.skipAbove id w.log.xacts.xmax) (some id)))
  | writeNothing {xid : ℕ} {before : ConsumerStateRow} :
    w.skip = some ⟨xid, before, .poisonChosen none⟩ →
    RecoveryStep c opts w (.skip .write) (w.skipping xid before (.written before none))
  | commit {xid : ℕ} {before row : ConsumerStateRow} {skippedEventId : Option ℕ} :
    w.skip = some ⟨xid, before, .written row skippedEventId⟩ →
    RecoveryStep c opts w (.skip .commit) { log := w.log.commit xid, slot := { w.slot with row }, skip := none }
  | abort {k : SkipCall} :
    w.skip = some k → RecoveryStep c opts w (.skip .abort) { w with log := w.log.abort k.xid, skip := none }
  | setStatus {disabled : Bool} :
    w.Free → RecoveryStep c opts w (.setStatus disabled)
      { w with log := w.log.statement, slot := { w.slot with row := w.slot.row.setStatus disabled } }

section
variable {c : EventConsumer} {opts : DispatcherOptions} {w w' : Recovery} {a : RecoveryAct}

theorem free_of_not_locked (h : ¬ (w.slot.turn.isSome || w.skip.isSome) = true) : w.Free := by
  simpa [Recovery.Free, Option.not_isSome_iff_eq_none] using h

/-- A step goes by one of the rules. -/
theorem RecoveryStep.of_step (h : recoveryStep c opts w a = some w') : RecoveryStep c opts w a w' := by
  cases a with
  | writer a =>
    obtain ⟨log, hl, rfl⟩ := Option.map_eq_some_iff.1 h
    exact .writer hl
  | turn a =>
    simp only [recoveryStep] at h
    split at h
    · cases h
    · next hskip =>
      obtain ⟨⟨log, slot⟩, hl, rfl⟩ := Option.map_eq_some_iff.1 h
      exact .turn (Option.not_isSome_iff_eq_none.1 hskip) (.of_turnStep hl)
  | setStatus disabled =>
    simp only [recoveryStep] at h
    split at h
    · cases h
    · next hfree =>
      cases h
      exact .setStatus (free_of_not_locked hfree)
  | skip a =>
    simp only [recoveryStep] at h
    cases a with
    | lock requireStatus =>
      simp only [skipStep] at h
      split at h
      · cases h
      · next hfree =>
        split at h
        · cases h
          exact .lock (free_of_not_locked hfree)
        · cases h
          exact .reject (free_of_not_locked hfree)
    | choosePending =>
      simp only [skipStep] at h
      split at h
      · next hk =>
        cases h
        exact .choosePending hk
      · cases h
    | choosePoison =>
      simp only [skipStep] at h
      split at h
      · next hk =>
        cases h
        exact .choosePoison hk
      · cases h
    | write =>
      simp only [skipStep] at h
      split at h
      · next hk =>
        cases h
        exact .writePending hk
      · next hk =>
        cases h
        exact .writeAbove hk
      · next hk =>
        cases h
        exact .writeNothing hk
      · cases h
    | commit =>
      simp only [skipStep] at h
      split at h
      · next hk =>
        cases h
        exact .commit hk
      · cases h
    | abort =>
      obtain ⟨k, hk, rfl⟩ := Option.map_eq_some_iff.1 h
      exact .abort hk

end

/-! ## What a turn records as failed -/

section
variable {c : EventConsumer} {maxAttempts start id : ℕ}
  {answer : EventRow → Option HandlerError} {o : DeliveryOutcome}
  {rows : List EventRow}

/-- The loop records an event of its own that it did not resolve. -/
theorem deliverEach_failed (hs : rows.Pairwise fun a b => a.id < b.id) (ho : o.failedEventId = none)
    (h : (deliverEach c maxAttempts start answer o rows).1.failedEventId = some id) :
    (∃ e ∈ rows, e.id = id) ∧ id ∉ resolvedIds c (deliverEach c maxAttempts start answer o rows).2 := by
  induction rows generalizing o with
  | nil =>
    rw [deliverEach, ho] at h
    cases h
  | cons row rows ih =>
    rw [List.pairwise_cons] at hs
    -- an event of the rest is not the row, which has a lower id
    have hrest : (∃ e ∈ rows, e.id = id) → id ∉ [row.id] := by
      rintro ⟨e, he, rfl⟩
      have := hs.1 e he
      simp only [List.mem_singleton]
      omega
    cases hans : answer row with
    | none =>
      simp only [deliverEach, hans] at h ⊢
      obtain ⟨hmem, hres⟩ := ih hs.2 (o := { o.resolve start row.id with processed := o.processed + 1 }) ho h
      rw [resolvedIds_cons, List.mem_append, not_or]
      exact ⟨hmem.imp fun e he => ⟨.tail _ he.1, he.2⟩, hrest hmem, hres⟩
    | some e =>
      cases hskip : c.skipApplyErrors with
      | true =>
        simp only [deliverEach, hans, hskip, if_true] at h ⊢
        obtain ⟨hmem, hres⟩ := ih hs.2 (o := { o.resolve start row.id with failed := o.failed + 1 }) ho h
        rw [resolvedIds_cons, List.mem_append, not_or]
        refine ⟨hmem.imp fun e he => ⟨.tail _ he.1, he.2⟩, ?_, hres⟩
        simpa [HandlerCall.resolvedIds, hskip] using hrest hmem
      | false =>
        simp only [deliverEach, hans, hskip, Bool.false_eq_true, if_false] at h ⊢
        have hid : row.id = id := by split at h <;> exact Option.some.inj h
        exact ⟨⟨row, .head _, hid⟩, by simp [HandlerCall.resolvedIds, hskip]⟩

/-- The loop does not unprocess. -/
theorem processed_le_deliverEach (c : EventConsumer) (maxAttempts start : ℕ) (answer : EventRow → Option HandlerError)
    (rows : List EventRow) (o : DeliveryOutcome) :
    o.processed ≤ (deliverEach c maxAttempts start answer o rows).1.processed := by
  induction rows generalizing o with
  | nil => exact le_refl _
  | cons row rows ih =>
    cases hans : answer row with
    | none =>
      simp only [deliverEach, hans]
      exact (Nat.le_succ _).trans (ih { o.resolve start row.id with processed := o.processed + 1 })
    | some e =>
      cases hskip : c.skipApplyErrors with
      | true =>
        simp only [deliverEach, hans, hskip, if_true]
        exact ih { o.resolve start row.id with failed := o.failed + 1 }
      | false =>
        simp only [deliverEach, hans, hskip, Bool.false_eq_true, if_false]
        split <;> exact le_refl _

/-- A loop that processed nothing and records no failure has skipped every event, each after its handler threw. -/
theorem deliverEach_skipped
    (hp : (deliverEach c maxAttempts start answer o rows).1.processed = o.processed)
    (hf : (deliverEach c maxAttempts start answer o rows).1.failedEventId = none) :
    ∀ e ∈ rows, (answer e).isSome ∧ c.skipApplyErrors = true := by
  induction rows generalizing o with
  | nil => simp
  | cons row rows ih =>
    cases hans : answer row with
    | none =>
      simp only [deliverEach, hans] at hp
      have hle := processed_le_deliverEach c maxAttempts start answer rows
        { o.resolve start row.id with processed := o.processed + 1 }
      simp only [hp] at hle
      omega
    | some e =>
      cases hskip : c.skipApplyErrors with
      | true =>
        simp only [deliverEach, hans, hskip, if_true] at hp hf
        intro e' he'
        cases he' with
        | head => exact ⟨by rw [hans]; rfl, rfl⟩
        | tail _ he' =>
          have := ih (o := { o.resolve start row.id with failed := o.failed + 1 }) hp hf e' he'
          exact ⟨this.1, rfl⟩
      | false =>
        simp only [deliverEach, hans, hskip, Bool.false_eq_true, if_false] at hf
        split at hf <;> cases hf

end

/-! ## When the recorded event is owed -/

/-- The event is above the cursor or in a pending gap. -/
def ConsumerStateRow.Owed (row : ConsumerStateRow) (id : ℕ) : Prop :=
  row.lastProcessedEventId < id ∨ Covers row.pendingGaps id

/-- The log holds the event, and every later statement sees it. -/
def Log.Holds (l : Log) (id : ℕ) : Prop := ∃ r ∈ l.visibleRows, r.id = id

/-- What the row records as failed is an event of the log that the consumer still owes. -/
def FailedOwed (l : Log) (row : ConsumerStateRow) : Prop :=
  ∀ id, row.lastFailedEventId = some id → l.Holds id ∧ row.Owed id

/-- A skip resolves one event, which is the one recorded as failed if there is one, and no other. -/
structure SkipsExactly (before after : ConsumerStateRow) (skippedEventId : Option ℕ) : Prop where
  /-- The event recorded as failed is the one that is skipped. -/
  recorded : ∀ id, before.lastFailedEventId = some id → skippedEventId = some id
  /-- The event was owed and is owed no longer. -/
  skipped : ∀ id, skippedEventId = some id → before.Owed id ∧ ¬ after.Owed id
  /-- Any other id is owed as before, whether its event is visible or still in flight. -/
  others : ∀ id, skippedEventId ≠ some id → (after.Owed id ↔ before.Owed id)

/-- The recorded event is owed, and a skip that commits is exact. -/
structure SkipsPoison (c : EventConsumer) (opts : DispatcherOptions) (w : Recovery) : Prop where
  recorded : FailedOwed w.log w.slot.row
  skip : ∀ xid before row skippedEventId w', w.skip = some ⟨xid, before, .written row skippedEventId⟩ →
    recoveryStep c opts w (.skip .commit) = some w' → SkipsExactly w.slot.row w'.slot.row skippedEventId

/-- A pass with these answers skips the recorded event and processes nothing while the intake is paused: the batch
call throws, the error policy skips failing events, and the handler throws for every pending event fetched, the
recorded one among them. -/
def SkipsRecorded (c : EventConsumer) (opts : DispatcherOptions) (state : ConsumerStateRow) (events : List EventRow)
    (pendingGapCount : ℕ) (answers : HandlerAnswers) : Prop :=
  isIntakePausedByPendingGapLimit c pendingGapCount opts.maxPendingGapRanges = true ∧ c.skipApplyErrors = true ∧
    answers.batch.toOption = none ∧
    (∀ e ∈ events, e.id ≤ state.lastProcessedEventId → (answers.event e).isSome) ∧
    ∃ e ∈ events, e.id ≤ state.lastProcessedEventId ∧ state.lastFailedEventId = some e.id

instance (c : EventConsumer) (opts : DispatcherOptions) (state : ConsumerStateRow) (events : List EventRow)
    (pendingGapCount : ℕ) (answers : HandlerAnswers) :
    Decidable (SkipsRecorded c opts state events pendingGapCount answers) :=
  inferInstanceAs (Decidable (_ ∧ _ ∧ _ ∧ _ ∧ _))

/-- The condition on a step: the handlers do not answer so that the recorded event is skipped while the intake is
paused. -/
def RecordedOk (c : EventConsumer) (opts : DispatcherOptions) (w : Recovery) : RecoveryAct → Prop
  | .turn (.deliver answers) =>
    match w.slot.turn with
    | some ⟨_, state, .fetched xminNow events⟩ =>
      ¬ SkipsRecorded c opts state events (burntAndSurviving c opts state xminNow events).2.length answers
    | _ => True
  | _ => True

instance (c : EventConsumer) (opts : DispatcherOptions) (w : Recovery) (a : RecoveryAct) :
    Decidable (RecordedOk c opts w a) := by
  unfold RecordedOk
  split
  · split <;> infer_instance
  · infer_instance

section
variable {c : EventConsumer} {opts : DispatcherOptions} {state : ConsumerStateRow}
  {pendingLimit pendingGapCount id : ℕ} {answers : HandlerAnswers} {events : List EventRow} {holds : List HoldCall}
  {tenantIdsInRangesAbove : ℕ → List String}

/-- A delivery records an event of its own that it did not resolve. -/
theorem deliverEvents_failed {maxAttempts : ℕ} (hs : events.Pairwise fun a b => a.id < b.id)
    (h : (deliverEvents c events answers maxAttempts state).1.failedEventId = some id) :
    (∃ e ∈ events, e.id = id) ∧ id ∉ resolvedIds c (deliverEvents c events answers maxAttempts state).2 := by
  unfold deliverEvents at h ⊢
  dsimp only at h ⊢
  split at h
  · next hb =>
    rw [if_pos hb]
    cases hbatch : answers.batch with
    | ok holds =>
      simp only [hbatch, outcomeOfAppliedBatch] at h ⊢
      have hmem := List.mem_of_head? h
      obtain ⟨e, he, rfl⟩ := List.mem_map.1 hmem
      obtain ⟨he, hheld⟩ := List.mem_filter.1 he
      refine ⟨⟨e, he, rfl⟩, fun hres => ?_⟩
      simp only [resolvedIds_cons, resolvedIds_nil, List.append_nil, HandlerCall.resolvedIds, List.mem_map,
        List.mem_filter, decide_eq_true_eq] at hres
      obtain ⟨e', ⟨-, hnot⟩, heq⟩ := hres
      exact hnot (heq ▸ of_decide_eq_true hheld)
    | error e =>
      simp only [hbatch] at h ⊢
      obtain ⟨hmem, hres⟩ := deliverEach_failed hs rfl h
      exact ⟨hmem, by simpa [resolvedIds_cons, HandlerCall.resolvedIds] using hres⟩
  · next hb =>
    rw [if_neg hb]
    exact deliverEach_failed hs rfl h

/-- A delivery that processed nothing, held nothing and records no failure has skipped every event, after the batch
call and each handler threw. -/
theorem deliverEvents_skipped {maxAttempts : ℕ} (hc : c.batchHandler = true) (he : events ≠ [])
    (hp : (deliverEvents c events answers maxAttempts state).1.processed = 0)
    (hf : (deliverEvents c events answers maxAttempts state).1.failedEventId = none) :
    answers.batch.toOption = none ∧ ∀ e ∈ events, (answers.event e).isSome ∧ c.skipApplyErrors = true := by
  unfold deliverEvents at hp hf
  rw [if_pos (by simp [hc, he])] at hp hf
  cases hbatch : answers.batch with
  | ok holds =>
    -- an event is delivered or held, and a held one is recorded
    simp only [hbatch, outcomeOfAppliedBatch, List.length_map, List.length_eq_zero_iff, List.filter_eq_nil_iff,
      List.head?_eq_none_iff, List.map_eq_nil_iff, decide_eq_true_eq, not_not] at hp hf
    obtain ⟨e, hmem⟩ := List.exists_mem_of_ne_nil _ he
    exact absurd (hp e hmem) (hf e hmem)
  | error e =>
    simp only [hbatch] at hp hf
    exact ⟨rfl, deliverEach_skipped hp hf⟩

/-- A turn whose intake is paused hands over pending events only. -/
theorem le_of_mem_deliverable {e : EventRow}
    (hpaused : isIntakePausedByPendingGapLimit c pendingGapCount opts.maxPendingGapRanges = true)
    (he : e ∈ (deliverConsumerTurn c opts state events pendingLimit pendingGapCount tenantIdsInRangesAbove
      answers).deliverable) : e.id ≤ state.lastProcessedEventId := by
  simp only [deliverConsumerTurn, hpaused, if_true] at he
  exact of_decide_eq_true (List.mem_filter.1 he).2

/-- A turn records an event that it handed over, or the one that was recorded before, and has not resolved it. -/
theorem deliverConsumerTurn_failed (hs : events.Pairwise fun a b => a.id < b.id)
    (hok : ¬ SkipsRecorded c opts state events pendingGapCount answers) {t : TurnDelivery}
    (ht : deliverConsumerTurn c opts state events pendingLimit pendingGapCount tenantIdsInRangesAbove answers = t)
    (h : t.outcome.failedEventId = some id) :
    ((∃ e ∈ t.deliverable, e.id = id) ∨ state.lastFailedEventId = some id) ∧ id ∉ resolvedIds c t.calls := by
  have hsub : t.deliverable.Sublist events := ht ▸ deliverable_sublist
  have hpend : ∀ e ∈ events, e.id ≤ state.lastProcessedEventId → e ∈ t.deliverable := fun e he hle =>
    ht ▸ mem_deliverable he hle
  have hbelow : isIntakePausedByPendingGapLimit c pendingGapCount opts.maxPendingGapRanges = true →
      ∀ e ∈ t.deliverable, e.id ≤ state.lastProcessedEventId := fun hpaused e he =>
    le_of_mem_deliverable hpaused (ht ▸ he)
  -- the delivery before its escalation
  have hdelivered : ∀ p, (if t.deliverable.isEmpty then (DeliveryOutcome.start state state.lastFailedEventId, [])
      else deliverEvents c t.deliverable answers opts.maxAttempts state) = p → p.1.failedEventId = some id →
      ((∃ e ∈ t.deliverable, e.id = id) ∨ state.lastFailedEventId = some id) ∧ id ∉ resolvedIds c p.2 := by
    rintro p rfl hp
    split at hp
    · next hempty =>
      rw [if_pos hempty]
      exact ⟨.inr hp, by simp⟩
    · next hne =>
      rw [if_neg hne]
      obtain ⟨hmem, hres⟩ := deliverEvents_failed (hs.sublist hsub) hp
      exact ⟨.inl hmem, hres⟩
  simp only [deliverConsumerTurn] at ht
  set delivered := if t.deliverable.isEmpty then (DeliveryOutcome.start state state.lastFailedEventId, [])
      else deliverEvents c t.deliverable answers opts.maxAttempts state with hdel
  have hcalls : t.calls = delivered.2 := by
    subst ht
    rfl
  cases hpaused : isIntakePausedByPendingGapLimit c pendingGapCount opts.maxPendingGapRanges with
  | false =>
    have hout : t.outcome = delivered.1 := by
      subst ht
      simp [hpaused, hdel]
    rw [hcalls]
    exact hdelivered delivered rfl (hout ▸ h)
  | true =>
    have hout : t.outcome = escalateIntakePausedOutcome delivered.1 state t.deliverable pendingGapCount
        opts.maxPendingGapRanges (c.effectiveMaxAttempts opts.maxAttempts) := by
      subst ht
      simp [hpaused, hdel]
    rw [hcalls]
    rw [hout] at h
    unfold escalateIntakePausedOutcome at h
    dsimp only at h
    split at h
    · exact hdelivered delivered rfl h
    · next hnone =>
      cases hfailed : delivered.1.failedEventId with
      | some id' =>
        rw [hfailed, Option.some_or] at h
        exact hdelivered delivered rfl (hfailed.trans h)
      | none =>
        rw [hfailed, Option.none_or] at h
        refine ⟨.inr h, fun hres => hok ?_⟩
        -- the event recorded before was resolved, so the pass has skipped all it handed over
        by_cases hempty : t.deliverable.isEmpty = true
        · rw [hdel, if_pos hempty] at hres
          cases hres
        · rw [hdel, if_neg hempty] at hres hfailed hnone
          have hp : (deliverEvents c t.deliverable answers opts.maxAttempts state).1.processed = 0 := by
            simp only [Bool.or_eq_true, decide_eq_true_eq, not_or] at hnone
            omega
          have hc : c.batchHandler = true := by
            simp only [isIntakePausedByPendingGapLimit, Bool.and_eq_true] at hpaused
            exact hpaused.1
          obtain ⟨hbatch, hskipped⟩ := deliverEvents_skipped hc (by simpa using hempty) hp hfailed
          obtain ⟨⟨e, he, rfl⟩, -⟩ := (deliverEvents_spec (hs.sublist hsub)).resolved _ hres
          exact ⟨hpaused, (hskipped e he).2, hbatch, fun e' he' hle' => (hskipped e' (hpend e' he' hle')).1,
            e, hsub.subset he, hbelow hpaused e he, h⟩

end

/-! ## What a skip writes -/

/-- The gaps are ordered and lie at or below the cursor. -/
structure ConsumerStateRow.GapsOk (row : ConsumerStateRow) : Prop where
  ordered : Ordered row.pendingGaps
  below : ∀ g ∈ row.pendingGaps, g.toId ≤ row.lastProcessedEventId

section
variable {l l' : Log} {row before : ConsumerStateRow} {gaps : List PendingGapEntry} {id xmax : ℕ}

theorem ConsumerStateRow.GapsOk.le_cursor (h : row.GapsOk) (hc : Covers row.pendingGaps id) :
    id ≤ row.lastProcessedEventId := by
  obtain ⟨g, hg, hm⟩ := hc
  exact hm.2.trans (h.below g hg)

/-- Ranges without the id are left as they are. -/
theorem splitRange_of_contains :
    (gaps.flatMap fun gap => if rangeContainsId gap id then splitRangeExcludingIds gap [id] else [gap]) =
      gaps.flatMap fun gap => splitRangeExcludingIds gap [id] := by
  refine List.flatMap_congr fun g hg => ?_
  split
  · rfl
  · next hn =>
    have hout : ([id].filter fun id => id ≥ g.fromId && id ≤ g.toId) = [] := by
      have hm : ¬ Mem g id := fun hm => hn (rangeContainsId_iff.2 hm)
      rw [mem_entry] at hm
      simp only [List.filter_eq_nil_iff, List.mem_singleton, Bool.and_eq_true, decide_eq_true_eq]
      rintro _ rfl ⟨h₁, h₂⟩
      exact hm ⟨h₁, h₂⟩
    simp [splitRangeExcludingIds, hout]

/-- The event is taken out of its gap and nothing else changes. -/
theorem skipPending_spec (h : before.GapsOk) :
    (before.skipPending id).GapsOk ∧
      ∀ id', Covers (before.skipPending id).pendingGaps id' ↔ Covers before.pendingGaps id' ∧ id' ≠ id := by
  have hsplit : (before.skipPending id).pendingGaps = mergeContiguousGapRanges
      (before.pendingGaps.flatMap fun gap => splitRangeExcludingIds gap [id]) := by
    rw [← splitRange_of_contains]
    rfl
  have ho : Ordered (before.pendingGaps.flatMap fun gap => splitRangeExcludingIds gap [id]) :=
    ordered_splitRanges h.ordered
  obtain ⟨hord, hcov, -⟩ := mergeContiguousGapRanges_spec _ ho.nonempty ho.apart
  have hall : ∀ id', Covers (before.skipPending id).pendingGaps id' ↔ Covers before.pendingGaps id' ∧ id' ≠ id :=
    fun id' => by rw [hsplit, hcov, covers_splitRanges h.ordered, List.mem_singleton]
  refine ⟨⟨hsplit ▸ hord, fun g hg => ?_⟩, hall⟩
  have hne : g.fromId ≤ g.toId := (hsplit ▸ hord : Ordered (before.skipPending id).pendingGaps).nonempty g hg
  exact h.le_cursor ((hall g.toId).1 ⟨g, hg, hne, le_refl _⟩).1

/-- The cursor moves onto the event, and what it passes stays in a gap. -/
theorem skipAbove_spec (h : before.GapsOk) (hid : before.lastProcessedEventId < id) :
    (before.skipAbove id xmax).GapsOk ∧
      ∀ id', Covers (before.skipAbove id xmax).pendingGaps id' ↔
        Covers before.pendingGaps id' ∨ before.lastProcessedEventId < id' ∧ id' < id := by
  set window := (invisibleWindowGap before.lastProcessedEventId id xmax).toList with hwindow
  have hwin : ∀ g ∈ window, g.fromId = before.lastProcessedEventId + 1 ∧ g.fromId ≤ g.toId ∧ g.toId + 1 = id := by
    intro g hg
    rw [hwindow, Option.mem_toList, invisibleWindowGap] at hg
    split at hg
    · cases hg
    · cases hg
      exact ⟨rfl, by dsimp only; omega, by dsimp only; omega⟩
  have hwcov : ∀ id', Covers window id' ↔ before.lastProcessedEventId < id' ∧ id' < id := by
    intro id'
    constructor
    · rintro ⟨g, hg, hm⟩
      have ⟨h₁, h₂, h₃⟩ := hwin g hg
      rw [mem_entry] at hm
      omega
    · rintro ⟨h₁, h₂⟩
      refine ⟨⟨before.lastProcessedEventId + 1, id - 1, xmax⟩, ?_, by simp only [mem_entry]; omega⟩
      rw [hwindow, Option.mem_toList, invisibleWindowGap, if_neg (by omega)]
  have hwone : window.Pairwise Apart := by
    rw [hwindow]
    cases invisibleWindowGap before.lastProcessedEventId id xmax with
    | none => exact .nil
    | some g => exact List.pairwise_singleton _ _
  obtain ⟨hord, hcov, -⟩ := mergeContiguousGapRanges_spec (before.pendingGaps ++ window)
    (fun g hg => (List.mem_append.1 hg).elim (h.ordered.nonempty g) fun hg => (hwin g hg).2.1)
    (List.pairwise_append.2 ⟨h.ordered.apart, hwone, fun a ha b hb => .inl <| by
      have h₁ := h.below a ha
      have h₂ := (hwin b hb).1
      simp only [Before, span_lo, span_hi]
      omega⟩)
  have hall : ∀ id', Covers (before.skipAbove id xmax).pendingGaps id' ↔
      Covers before.pendingGaps id' ∨ before.lastProcessedEventId < id' ∧ id' < id := fun id' => by
    rw [← hwcov, ← covers_append]
    exact hcov id'
  refine ⟨⟨hord, fun g hg => ?_⟩, hall⟩
  have hne : g.fromId ≤ g.toId := hord.nonempty g hg
  rcases (hall g.toId).1 ⟨g, hg, hne, le_refl _⟩ with hc | hlt
  · exact (h.le_cursor hc).trans hid.le
  · exact hlt.2.le

theorem skipsExactly_pending (h : before.GapsOk) (hc : Covers before.pendingGaps id)
    (hf : ∀ id', before.lastFailedEventId = some id' → id' = id) :
    SkipsExactly before (before.skipPending id) (some id) where
  recorded id' hid' := by rw [hf id' hid']
  skipped id' hid' := by
    cases hid'
    refine ⟨.inr hc, ?_⟩
    rintro (hlt | hc')
    · exact absurd (h.le_cursor hc) (Nat.not_le.2 hlt)
    · exact (((skipPending_spec h).2 id).1 hc').2 rfl
  others id' hne := or_congr .rfl (((skipPending_spec h).2 id').trans
    (and_iff_left fun heq => hne (heq ▸ rfl)))

theorem skipsExactly_above (h : before.GapsOk) (hid : before.lastProcessedEventId < id)
    (hf : ∀ id', before.lastFailedEventId = some id' → id' = id) :
    SkipsExactly before (before.skipAbove id xmax) (some id) where
  recorded id' hid' := by rw [hf id' hid']
  skipped id' hid' := by
    cases hid'
    refine ⟨.inl hid, ?_⟩
    rintro (hlt | hc)
    · exact Nat.lt_irrefl _ hlt
    · rcases ((skipAbove_spec h hid).2 id).1 hc with hc | hlt
      · exact absurd (h.le_cursor hc) (Nat.not_le.2 hid)
      · exact Nat.lt_irrefl _ hlt.2
  others id' hne := by
    have hne : id' ≠ id := fun heq => hne (heq ▸ rfl)
    have hcur : (before.skipAbove id xmax).lastProcessedEventId = id := rfl
    have hle : Covers before.pendingGaps id' → id' ≤ before.lastProcessedEventId := h.le_cursor
    rw [ConsumerStateRow.Owed, ConsumerStateRow.Owed, (skipAbove_spec h hid).2, hcur]
    constructor
    · rintro (hlt | hc | hlt)
      · exact .inl (hid.trans hlt)
      · exact .inr hc
      · exact .inl hlt.1
    · rintro (hlt | hc)
      · rcases Nat.lt_or_gt_of_ne hne with hlt' | hgt
        · exact .inr (.inr ⟨hlt, hlt'⟩)
        · exact .inl hgt
      · exact .inr (.inl hc)

theorem skipsExactly_nothing (hf : before.lastFailedEventId = none) : SkipsExactly before before none where
  recorded id hid := by
    rw [hf] at hid
    cases hid
  skipped _ hid := nomatch hid
  others _ _ := .rfl

/-- What a later statement sees. -/
theorem Log.Holds.ext (h : l.Holds id) (he : l.Ext l') (hp : l'.pruned = l.pruned) : l'.Holds id := by
  obtain ⟨r, hr, hid⟩ := h
  have ⟨hrow, hcom, hvis⟩ := Log.mem_visibleRows.1 hr
  exact ⟨r, Log.mem_visibleRows.2 ⟨he.rows r hrow, he.xacts.committed _ hcom, hp ▸ hvis⟩, hid⟩

theorem FailedOwed.ext (h : FailedOwed l row) (he : l.Ext l') (hp : l'.pruned = l.pruned) : FailedOwed l' row :=
  fun id hid => ⟨(h id hid).1.ext he hp, (h id hid).2⟩

theorem FailedOwed.of_none (h : row.lastFailedEventId = none) : FailedOwed l row := fun id hid => by
  rw [h] at hid
  cases hid

end

/-! ## The invariant -/

/-- The invariant of a turn's phase, over the row the turn locked. -/
def TurnRecorded (c : EventConsumer) (opts : DispatcherOptions) (l : Log) (state : ConsumerStateRow) :
    TurnPhase → Prop
  | .acquired | .xminRead _ | .skipped => True
  | .fetched xminNow events =>
    events.Pairwise (fun a b => a.id < b.id) ∧ (opts.batchSize = 0 → events = []) ∧
    (∀ e ∈ events, l.Holds e.id ∧ state.Owed e.id) ∧
    ∀ id, state.lastFailedEventId = some id → ¬ Covers (burntAndSurviving c opts state xminNow events).1 id
  | .delivered d _ survivingGaps =>
    d.deliverable.Pairwise (fun a b => a.id < b.id) ∧
    DeliverySpec c state.lastProcessedEventId d.deliverable d.outcome d.calls ∧
    survivingGaps.Sublist state.pendingGaps ∧ (opts.batchSize = 0 → d.outcome.failedEventId = none) ∧
    ∀ id, d.outcome.failedEventId = some id → l.Holds id ∧
      (state.lastProcessedEventId < id ∨ Covers survivingGaps id) ∧ id ∉ resolvedIds c d.calls
  | .persisted row _ _ =>
    row.GapsOk ∧ FailedOwed l row ∧ (opts.batchSize = 0 → row.lastFailedEventId = none)

/-- The invariant of a call's phase, over the row it locked. -/
def SkipRecorded (before : ConsumerStateRow) : SkipPhase → Prop
  | .locked => True
  | .pendingChosen none => ∀ id, before.lastFailedEventId = some id → before.lastProcessedEventId < id
  | .pendingChosen (some id) =>
    Covers before.pendingGaps id ∧ ∀ id', before.lastFailedEventId = some id' → id' = id
  | .poisonChosen none => before.lastFailedEventId = none
  | .poisonChosen (some id) =>
    before.lastProcessedEventId < id ∧ ∀ id', before.lastFailedEventId = some id' → id' = id
  | .written row skippedEventId =>
    SkipsExactly before row skippedEventId ∧ row.GapsOk ∧ row.lastFailedEventId = none

/-- What every run whose steps are `RecordedOk` maintains. -/
structure RecoveryInv (c : EventConsumer) (opts : DispatcherOptions) (w : Recovery) : Prop where
  log : w.log.WF
  gaps : w.slot.row.GapsOk
  recorded : FailedOwed w.log w.slot.row
  /-- A dispatcher whose batches are empty records no failure. -/
  batch : opts.batchSize = 0 → w.slot.row.lastFailedEventId = none
  turn : ∀ t, w.slot.turn = some t → w.log.Reading t.xid ∧
    t.state.lastProcessedEventId = w.slot.row.lastProcessedEventId ∧
    t.state.pendingGaps = w.slot.row.pendingGaps ∧ t.state.lastFailedEventId = w.slot.row.lastFailedEventId ∧
    TurnRecorded c opts w.log t.state t.phase
  skip : ∀ k, w.skip = some k → w.slot.turn = none ∧ w.log.Reading k.xid ∧ k.before = w.slot.row ∧
    SkipRecorded k.before k.phase

/-- A log with a freshly registered consumer, whose gaps are ordered and at or below its cursor. -/
structure Recovery.Registered (w : Recovery) : Prop where
  log : w.log.WF
  slot : ∃ cursor gaps, w.slot = .registered cursor gaps
  gaps : w.slot.row.GapsOk
  free : w.skip = none

section
variable {c : EventConsumer} {opts : DispatcherOptions} {l l' : Log} {w w' : Recovery} {state before : ConsumerStateRow}
  {xid xminNow xmax : ℕ} {events : List EventRow} {answers : HandlerAnswers} {phase : TurnPhase}
  {slot slot' : ConsumerSlot} {a : TurnAct}

/-- The phases survive the other parties' steps. -/
theorem TurnRecorded.ext (h : TurnRecorded c opts l state phase) (he : l.Ext l') (hp : l'.pruned = l.pruned) :
    TurnRecorded c opts l' state phase := by
  cases phase with
  | acquired | xminRead | skipped => trivial
  | fetched =>
    obtain ⟨hs, hz, hmem, hburnt⟩ := h
    exact ⟨hs, hz, fun e hm => ⟨(hmem e hm).1.ext he hp, (hmem e hm).2⟩, hburnt⟩
  | delivered =>
    obtain ⟨hs, hd, hsub, hz, hfailed⟩ := h
    exact ⟨hs, hd, hsub, hz, fun id hid => ⟨(hfailed id hid).1.ext he hp, (hfailed id hid).2⟩⟩
  | persisted => exact ⟨h.1, h.2.1.ext he hp, h.2.2⟩

/-- The fetch of a turn sees the recorded event, and so does not take its gap for burnt. -/
theorem turnRecorded_fetch (hw : l.WF) (hgaps : state.GapsOk) (hfailed : FailedOwed l state)
    (hz : opts.batchSize = 0 → state.lastFailedEventId = none) :
    TurnRecorded c opts l state (.fetched xminNow
      (selectPendingAndNewEventRows l.visibleRows state.lastProcessedEventId state.pendingGaps opts.batchSize
        (pendingFetchLimit c opts.batchSize))) := by
  by_cases hsize : opts.batchSize = 0
  · rw [fetch_eq_nil hsize]
    refine ⟨.nil, fun _ => rfl, by simp, fun id hid => ?_⟩
    rw [hz hsize] at hid
    cases hid
  · have hnil : opts.batchSize = 0 → state.pendingGaps = [] := fun h => absurd h hsize
    have ⟨hsorted, hmem⟩ := fetch_rows (c := c) hw hgaps.ordered hgaps.below hnil
    refine ⟨hsorted, fetch_eq_nil, fun e he => ⟨⟨e, (hmem e he).1, rfl⟩, (hmem e he).2⟩, fun id hid => ?_⟩
    obtain ⟨⟨r, hr, rfl⟩, -⟩ := hfailed id hid
    exact not_burnt_of_visible hw hgaps.ordered hgaps.below hnil hr

/-- A delivery records an event that the consumer owes and has not resolved. -/
theorem TurnRecorded.deliver (h : TurnRecorded c opts l state (.fetched xminNow events)) (hgaps : state.GapsOk)
    (hfailed : FailedOwed l state) (hz : opts.batchSize = 0 → state.lastFailedEventId = none)
    (hok : ¬ SkipsRecorded c opts state events (burntAndSurviving c opts state xminNow events).2.length answers) :
    TurnRecorded c opts l state (.delivered (turnDelivery c opts l state xminNow events answers)
      (burntAndSurviving c opts state xminNow events).1 (burntAndSurviving c opts state xminNow events).2) := by
  obtain ⟨hs, hnil, hmem, hburnt⟩ := h
  have hsub : (turnDelivery c opts l state xminNow events answers).deliverable.Sublist events := deliverable_sublist
  have hrecord : ∀ id, (turnDelivery c opts l state xminNow events answers).outcome.failedEventId = some id →
      ((∃ e ∈ (turnDelivery c opts l state xminNow events answers).deliverable, e.id = id) ∨
        state.lastFailedEventId = some id) ∧
      id ∉ resolvedIds c (turnDelivery c opts l state xminNow events answers).calls :=
    fun _ hid => deliverConsumerTurn_failed hs hok rfl hid
  -- an event that was fetched, or was recorded, is in no gap that counts as burnt
  have hsurvives : ∀ id, state.Owed id → ¬ Covers (burntAndSurviving c opts state xminNow events).1 id →
      state.lastProcessedEventId < id ∨ Covers (burntAndSurviving c opts state xminNow events).2 id :=
    fun id howed hnot => howed.imp_right fun hc => (covers_burnt_or_surviving hc).resolve_left hnot
  have hfetched : ∀ e ∈ events, ¬ Covers (burntAndSurviving c opts state xminNow events).1 e.id := by
    rintro e he ⟨g, hg, hm⟩
    have ⟨hg, hb⟩ := mem_burnt.1 hg
    refine (isBurnt_iff.1 hb).1 e.id (List.mem_map_of_mem (List.mem_filter.2 ⟨he, ?_⟩)) hm
    exact decide_eq_true (hm.2.trans (hgaps.below g hg))
  refine ⟨hs.sublist hsub, deliverConsumerTurn_spec hs _ rfl, surviving_sublist, fun hsize => ?_, fun id hid => ?_⟩
  · cases hid : (turnDelivery c opts l state xminNow events answers).outcome.failedEventId with
    | none => rfl
    | some id =>
      rcases (hrecord id hid).1 with ⟨e, he, -⟩ | hlast
      · have := hsub.subset he
        rw [hnil hsize] at this
        cases this
      · rw [hz hsize] at hlast
        cases hlast
  · obtain ⟨⟨e, he, rfl⟩ | hlast, hres⟩ := hrecord id hid
    · have he := hsub.subset he
      exact ⟨(hmem e he).1, hsurvives _ (hmem e he).2 (hfetched e he), hres⟩
    · exact ⟨(hfailed id hlast).1, hsurvives _ (hfailed id hlast).2 (hburnt id hlast), hres⟩

/-- What a turn writes is in order, and the event it records is owed. -/
theorem TurnRecorded.readXmax {d : TurnDelivery} {burntGaps survivingGaps : List PendingGapEntry}
    (h : TurnRecorded c opts l state (.delivered d burntGaps survivingGaps)) (hgaps : state.GapsOk) :
    TurnRecorded c opts l state (.persisted (state.deliveryOutcome d.outcome
      (gapsAfterTurn survivingGaps state.lastProcessedEventId d xmax)) (resolvedIds c d.calls) burntGaps) := by
  obtain ⟨hs, hd, hsub, hz, hfailed⟩ := h
  have ⟨hord, hbelow, hcov, _⟩ := gapsAfterTurn_spec hd hs xmax (hgaps.ordered.sublist hsub)
    fun g hg => hgaps.below g (hsub.subset hg)
  refine ⟨⟨hord, hbelow⟩, fun id hid => ?_, hz⟩
  have ⟨hholds, howed, hres⟩ := hfailed id hid
  refine ⟨hholds, ?_⟩
  rcases Nat.lt_or_ge d.outcome.cursor id with hlt | hle
  · exact .inl hlt
  · exact .inr ((hcov id).2 ⟨howed.elim (fun hlt => .inr ⟨hlt, hle⟩) .inl, hres⟩)

theorem acquireConsumerState_failed {row : ConsumerStateRow} {cool : Bool}
    (h : acquireConsumerState opts row cool = some state) : state.lastFailedEventId = row.lastFailedEventId := by
  unfold acquireConsumerState at h
  split at h
  · cases h
  · rw [Option.ite_none_right_eq_some] at h
    cases h.2
    rfl
  · cases h
    rfl
  · cases h
    rfl

/-- A row with the cursor, the gaps and the record of another. -/
structure SameDelivery (row row' : ConsumerStateRow) : Prop where
  cursor : row.lastProcessedEventId = row'.lastProcessedEventId
  gaps : row.pendingGaps = row'.pendingGaps
  failed : row.lastFailedEventId = row'.lastFailedEventId

theorem SameDelivery.gapsOk {row row' : ConsumerStateRow} (h : SameDelivery row row') (hgaps : row'.GapsOk) :
    row.GapsOk :=
  ⟨h.gaps ▸ hgaps.ordered, h.gaps ▸ h.cursor ▸ hgaps.below⟩

theorem SameDelivery.failedOwed {row row' : ConsumerStateRow} (h : SameDelivery row row')
    (hfailed : FailedOwed l row') : FailedOwed l row := fun id hid => by
  have ⟨hholds, howed⟩ := hfailed id (h.failed ▸ hid)
  exact ⟨hholds, by rw [ConsumerStateRow.Owed, h.cursor, h.gaps]; exact howed⟩

/-- A row that nobody holds. -/
theorem RecoveryInv.unlocked {row : ConsumerStateRow} {calls : List HandlerCall} {resolved : List ℕ}
    {burnt : List PendingGapEntry} (hw : l.WF) (hgaps : row.GapsOk) (hfailed : FailedOwed l row)
    (hz : opts.batchSize = 0 → row.lastFailedEventId = none) :
    RecoveryInv c opts ⟨l, ⟨row, none, calls, resolved, burnt⟩, none⟩ :=
  ⟨hw, hgaps, hfailed, hz, (fun _ ht => nomatch ht), fun _ hk => nomatch hk⟩

/-- A step of a turn keeps what the row records. -/
theorem RecoveryInv.turnStep (h : RecoveryInv c opts ⟨l, slot, none⟩) (hok : RecordedOk c opts ⟨l, slot, none⟩ (.turn a))
    (hs : TurnStep c opts l slot a l' slot') : RecoveryInv c opts ⟨l', slot', none⟩ := by
  have ⟨he, hw', hp, _⟩ := hs.ext (fun t ht => (h.turn t ht).1) h.log
  -- the row that a turn in progress works on
  have hsame : ∀ t, slot.turn = some t → SameDelivery t.state slot.row := fun t ht =>
    have ⟨_, hc, hg, hf, _⟩ := h.turn t ht
    ⟨hc, hg, hf⟩
  -- a turn goes on
  have phase : ∀ (t : Turn) (p : TurnPhase) (calls : List HandlerCall), slot.turn = some t →
      TurnRecorded c opts l t.state p →
      RecoveryInv c opts ⟨l, { slot with turn := some { t with phase := p }, calls }, none⟩ := fun t p calls ht hp => by
    obtain ⟨hx, hc, hg, hf, -⟩ := h.turn t ht
    refine ⟨h.log, h.gaps, h.recorded, h.batch, fun t' ht' => ?_, fun _ hk => nomatch hk⟩
    cases ht'
    exact ⟨hx, hc, hg, hf, hp⟩
  -- a turn starts
  have locked : ∀ (state : ConsumerStateRow) (p : TurnPhase), SameDelivery state slot.row →
      TurnRecorded c opts l.claim state p →
      RecoveryInv c opts ⟨l.claim, { slot with turn := some ⟨l.xacts.nextXid, state, p⟩ }, none⟩ :=
    fun state p hsame hp => by
      refine ⟨h.log.claim, h.gaps, h.recorded.ext (Log.ext_claim l) rfl, h.batch, fun t' ht' => ?_,
        fun _ hk => nomatch hk⟩
      cases ht'
      exact ⟨Log.reading_claim h.log, hsame.cursor, hsame.gaps, hsame.failed, hp⟩
  cases hs with
  | acquire _ ha =>
    have ⟨hc, hg⟩ := acquireConsumerState_eq ha
    exact locked _ _ ⟨hc, hg, acquireConsumerState_failed ha⟩ trivial
  | acquireSkip => exact locked _ _ ⟨rfl, rfl, rfl⟩ trivial
  | readXmin ht => exact phase _ _ _ ht trivial
  | fetch ht =>
    have hsame := hsame _ ht
    exact phase _ _ _ ht (turnRecorded_fetch h.log (hsame.gapsOk h.gaps) (hsame.failedOwed h.recorded)
      fun hz => hsame.failed.trans (h.batch hz))
  | deliverNothing ht => exact phase _ _ _ ht trivial
  | deliver ht =>
    have hsame := hsame _ ht
    simp only [RecordedOk, ht] at hok
    exact phase _ _ _ ht ((h.turn _ ht).2.2.2.2.deliver (hsame.gapsOk h.gaps) (hsame.failedOwed h.recorded)
      (fun hz => hsame.failed.trans (h.batch hz)) hok)
  | readXmax ht => exact phase _ _ _ ht ((h.turn _ ht).2.2.2.2.readXmax ((hsame _ ht).gapsOk h.gaps))
  | commit ht =>
    obtain ⟨hgaps, hfailed, hz⟩ := (h.turn _ ht).2.2.2.2
    exact .unlocked hw' hgaps (hfailed.ext he hp) hz
  | commitSkipped ht =>
    have hsame := hsame _ ht
    exact .unlocked hw' (hsame.gapsOk h.gaps) ((hsame.failedOwed h.recorded).ext he hp)
      fun hz => hsame.failed.trans (h.batch hz)
  | abort => exact .unlocked hw' h.gaps (h.recorded.ext he hp) h.batch
  | @recordFailure errorMessage _ hn =>
    obtain ⟨row, turn, calls, resolved, burnt⟩ := slot
    cases hn
    have hsame : SameDelivery { row with lastError := some errorMessage } row := ⟨rfl, rfl, rfl⟩
    exact .unlocked hw' (hsame.gapsOk h.gaps) ((hsame.failedOwed h.recorded).ext he hp)
      fun hz => hsame.failed.trans (h.batch hz)

theorem failedIsPending_iff :
    before.failedIsPending = true ↔ ∃ id, before.lastFailedEventId = some id ∧ Covers before.pendingGaps id := by
  unfold ConsumerStateRow.failedIsPending
  cases before.lastFailedEventId <;> simp [Covers]

theorem failedIsAboveCursor_iff : before.failedIsAboveCursor = true ↔
    ∃ id, before.lastFailedEventId = some id ∧ before.lastProcessedEventId < id := by
  unfold ConsumerStateRow.failedIsAboveCursor
  cases before.lastFailedEventId <;> simp

/-- The pending event that a call chooses is owed, and is the recorded one if there is one. -/
theorem skipRecorded_pending (hfailed : FailedOwed l before) (visible : List EventRow) :
    SkipRecorded before (.pendingChosen (before.pendingPoisonId visible)) := by
  unfold ConsumerStateRow.pendingPoisonId
  split
  · next hpending =>
    obtain ⟨id, hid, hc⟩ := failedIsPending_iff.1 hpending
    rw [hid]
    refine ⟨hc, fun id' hid' => ?_⟩
    rw [hid] at hid'
    exact (Option.some.inj hid').symm
  · next hpending =>
    split
    · next habove =>
      obtain ⟨id, hid, hlt⟩ := failedIsAboveCursor_iff.1 habove
      intro id' hid'
      rw [hid] at hid'
      cases hid'
      exact hlt
    · next habove =>
      -- an event that is recorded is owed, and this one would be neither pending nor above the cursor
      have hnone : before.lastFailedEventId = none := by
        cases hid : before.lastFailedEventId with
        | none => rfl
        | some id =>
          rcases (hfailed id hid).2 with hlt | hc
          · exact absurd (failedIsAboveCursor_iff.2 ⟨id, hid, hlt⟩) habove
          · exact absurd (failedIsPending_iff.2 ⟨id, hid, hc⟩) hpending
      cases hmin : selectSmallestVisibleIdInRanges visible before.pendingGaps with
      | none => simp [SkipRecorded, hnone]
      | some id =>
        obtain ⟨r, hr, rfl⟩ := List.mem_map.1 (List.min?_mem hmin)
        exact ⟨of_decide_eq_true (List.mem_filter.1 hr).2, by simp [hnone]⟩

/-- The event above the cursor that a call chooses is the recorded one if there is one. -/
theorem SkipRecorded.poison (h : SkipRecorded before (.pendingChosen none)) (visible : List EventRow) :
    SkipRecorded before (.poisonChosen (before.poisonId visible)) := by
  unfold ConsumerStateRow.poisonId
  split
  · next habove =>
    obtain ⟨id, hid, hlt⟩ := failedIsAboveCursor_iff.1 habove
    rw [hid]
    refine ⟨hlt, fun id' hid' => ?_⟩
    rw [hid] at hid'
    exact (Option.some.inj hid').symm
  · next habove =>
    have hnone : before.lastFailedEventId = none := by
      cases hid : before.lastFailedEventId with
      | none => rfl
      | some id => exact absurd (failedIsAboveCursor_iff.2 ⟨id, hid, h id hid⟩) habove
    cases hnext : selectNextEventIdAfter visible before.lastProcessedEventId with
    | none => exact hnone
    | some id =>
      obtain ⟨r, hr, rfl⟩ := Option.map_eq_some_iff.1 hnext
      have hmem : r ∈ visible.filter fun r => r.id > before.lastProcessedEventId := by
        have := List.mem_of_head? hr
        rwa [sortById, List.mem_insertionSort] at this
      exact ⟨of_decide_eq_true (List.mem_filter.1 hmem).2, by simp [hnone]⟩

/-- Every step that meets the condition keeps what the row records. -/
theorem RecoveryInv.step {a : RecoveryAct} (h : RecoveryInv c opts w) (hok : RecordedOk c opts w a)
    (hs : recoveryStep c opts w a = some w') : RecoveryInv c opts w' := by
  obtain ⟨l, slot, skip⟩ := w
  -- a call goes on with its row locked
  have phase : ∀ (xid : ℕ) (before : ConsumerStateRow) (p p' : SkipPhase), skip = some ⟨xid, before, p⟩ →
      SkipRecorded before p' → RecoveryInv c opts ⟨l, slot, some ⟨xid, before, p'⟩⟩ := fun xid before p p' hk hp => by
    obtain ⟨hturn, hx, hb, -⟩ := h.skip _ hk
    refine ⟨h.log, h.gaps, h.recorded, h.batch, h.turn, fun k' hk' => ?_⟩
    cases hk'
    exact ⟨hturn, hx, hb, hp⟩
  -- the row is free again
  have free : ∀ (l' : Log) (row : ConsumerStateRow), slot.turn = none → l'.WF → row.GapsOk → FailedOwed l' row →
      (opts.batchSize = 0 → row.lastFailedEventId = none) → RecoveryInv c opts ⟨l', { slot with row }, none⟩ :=
    fun l' row hturn hw hgaps hfailed hz => by
      obtain ⟨row₀, turn, calls, resolved, burnt⟩ := slot
      cases hturn
      exact .unlocked hw hgaps hfailed hz
  cases RecoveryStep.of_step hs with
  | writer hl =>
    have he := Log.ext_step hl
    have hp := Log.step_pruned hl
    refine ⟨h.log.step hl, h.gaps, h.recorded.ext he hp, h.batch, fun t ht => ?_, fun k hk => ?_⟩
    · obtain ⟨hx, hc, hg, hf, hphase⟩ := h.turn t ht
      exact ⟨hx.step h.log hl, hc, hg, hf, hphase.ext he hp⟩
    · obtain ⟨hturn, hx, hb, hphase⟩ := h.skip k hk
      exact ⟨hturn, hx.step h.log hl, hb, hphase⟩
  | turn hskip ht =>
    cases hskip
    exact h.turnStep hok ht
  | lock hfree =>
    have he := Log.ext_claim l
    refine ⟨h.log.claim, h.gaps, h.recorded.ext he rfl, h.batch, fun t ht => ?_, fun k hk => ?_⟩
    · rw [hfree.1] at ht
      cases ht
    · cases hk
      exact ⟨hfree.1, Log.reading_claim h.log, rfl, trivial⟩
  | reject hfree =>
    have hx := Log.reading_claim h.log
    have he := (Log.ext_claim l).trans (Log.ext_abort l.claim l.xacts.nextXid)
    have hfree' : skip = none := hfree.2
    subst hfree'
    exact free _ _ hfree.1 (h.log.claim.abort hx) h.gaps (h.recorded.ext he rfl) h.batch
  | choosePending hk =>
    have hb := (h.skip _ hk).2.2.1
    exact phase _ _ _ _ hk (skipRecorded_pending (hb ▸ h.recorded) _)
  | choosePoison hk => exact phase _ _ _ _ hk ((h.skip _ hk).2.2.2.poison _)
  | writePending hk =>
    obtain ⟨-, -, hb, hc, hf⟩ := h.skip _ hk
    have hgaps := hb ▸ h.gaps
    exact phase _ _ _ _ hk ⟨skipsExactly_pending hgaps hc hf, (skipPending_spec hgaps).1, rfl⟩
  | writeAbove hk =>
    obtain ⟨-, -, hb, hlt, hf⟩ := h.skip _ hk
    have hgaps := hb ▸ h.gaps
    exact phase _ _ _ _ hk ⟨skipsExactly_above hgaps hlt hf, (skipAbove_spec hgaps hlt).1, rfl⟩
  | writeNothing hk =>
    obtain ⟨-, -, hb, hnone⟩ := h.skip _ hk
    cases hb
    exact phase _ _ _ _ hk ⟨skipsExactly_nothing hnone, h.gaps, hnone⟩
  | commit hk =>
    obtain ⟨hturn, hx, -, -, hgaps, hnone⟩ := h.skip _ hk
    exact free _ _ hturn (h.log.commit hx) hgaps (.of_none hnone) fun _ => hnone
  | abort hk =>
    obtain ⟨hturn, hx, -⟩ := h.skip _ hk
    exact free _ _ hturn (h.log.abort hx) h.gaps (h.recorded.ext (Log.ext_abort _ _) rfl) h.batch
  | @setStatus disabled hfree =>
    have hfree' : skip = none := hfree.2
    subst hfree'
    have hsame : SameDelivery (slot.row.setStatus disabled) slot.row := ⟨rfl, rfl, rfl⟩
    exact free _ _ hfree.1 h.log.statement (hsame.gapsOk h.gaps)
      ((hsame.failedOwed h.recorded).ext (Log.ext_statement h.log) rfl) h.batch

/-- A freshly registered consumer has failed nothing. -/
theorem Recovery.Registered.inv (h : w.Registered) : RecoveryInv c opts w := by
  obtain ⟨l, slot, skip⟩ := w
  obtain ⟨hw, ⟨cursor, gaps, hslot⟩, hgaps, hfree⟩ := h
  cases hslot
  cases hfree
  exact .unlocked hw hgaps (.of_none rfl) fun _ => rfl

/-- The recorded event is owed, and a skip that commits is exact. -/
theorem RecoveryInv.skipsPoison (h : RecoveryInv c opts w) : SkipsPoison c opts w where
  recorded := h.recorded
  skip xid before row skippedEventId w' hk hs := by
    obtain ⟨-, -, hb, hexact, -⟩ := h.skip _ hk
    cases RecoveryStep.of_step hs with
    | commit hk' =>
      rw [hk] at hk'
      cases hk'
      rw [← hb]
      exact hexact

/-- In every run in which no pass skips the recorded event while the intake is paused, what the row records as
failed is owed, and `skipPoisonEvent` skips it and nothing else. -/
theorem skipsPoison_of_run {w₀ : Recovery} (h₀ : w₀.Registered)
    (hr : Run (recoveryStep c opts) (RecordedOk c opts) w₀ w) : SkipsPoison c opts w :=
  (hr.invariant h₀.inv fun _ _ _ => RecoveryInv.step).skipsPoison

end

/-! ## A skip, and a recorded event that is owed no longer -/

/-- A consumer registered at the beginning of an empty log. -/
def Recovery.start : Recovery := ⟨.initial, .registered 0 [], none⟩

theorem registered_start : Recovery.start.Registered :=
  ⟨Log.initial_wf, ⟨0, [], rfl⟩, ⟨ordered_nil, by simp [Recovery.start, ConsumerSlot.registered]⟩, rfl⟩

/-- A handler that throws for one event. -/
def HandlerAnswers.throwing (id : ℕ) (batch : Except HandlerError (List HoldCall)) : HandlerAnswers :=
  { batch, event := fun row => if row.id = id then some ⟨"Error", "poison"⟩ else none }

/-- Two writers, of which the one with the lower event id has not committed yet; the other one's event fails, and
is skipped. -/
def skipBehindLateCommit : List RecoveryAct :=
  [.writer .claim, .writer .claim, .writer (.draw 1), .writer (.draw 2), .writer (.insert 1 1 (someEvent "a" 1)),
    .writer (.insert 2 2 (someEvent "b" 1)), .writer (.commit 2)] ++
  (fullTurn (.throwing 2 (.ok []))).map .turn ++
  [.skip (.lock none), .skip .choosePending, .skip .choosePoison, .skip .write, .skip .commit, .writer (.commit 1)]

/-- The cursor moves onto the poison, and the id in flight before it stays in a gap. -/
theorem skipsPoison_of_run_lateCommit : ∃ w : Recovery, SkipsPoison perEventConsumer .default w ∧
    w.slot.row.lastProcessedEventId = 2 ∧ w.slot.row.pendingGaps.map (·.toId) = [1] := by
  have ⟨w, hr, hw⟩ := exists_run_of_execOk (recoveryStep perEventConsumer .default)
    (fun w a => RecordedOk perEventConsumer .default w a) .start skipBehindLateCommit
    (fun w => w.slot.row.lastProcessedEventId == 2 && w.slot.row.pendingGaps.map (·.toId) == [1])
    (fun _ _ => of_decide_eq_true) (by decide +kernel) (by decide +kernel)
  simp only [Bool.and_eq_true, beq_iff_eq] at hw
  exact ⟨w, skipsPoison_of_run registered_start hr, hw⟩

/-- A consumer with a batch handler whose error policy skips failing events. -/
def skippingBatchConsumer : EventConsumer :=
  { batchHandler := true, errorPolicy := some ⟨none, true, fun _ => false⟩ }

/-- A batch handler holds the only event, which fills the pending gaps up to their limit; the next batch call throws,
and the event's own handler too. -/
def skipWhilePaused : List RecoveryAct :=
  [.writer .claim, .writer (.draw 1), .writer (.insert 1 1 (someEvent "a" 1)), .writer (.commit 1)] ++
  (fullTurn (.throwing 1 (.ok [⟨[1], "index rejects writes", false⟩]))).map .turn ++
  (fullTurn (.throwing 1 (.error ⟨"Error", "index is gone"⟩))).map .turn

/-- The pass skips the held event, takes it out of its gap, and names it as the one that failed. -/
theorem not_skipsPoison : ¬ ∀ (c : EventConsumer) (opts : DispatcherOptions) (w₀ w : Recovery), w₀.Registered →
    Run (recoveryStep c opts) (fun _ _ => True) w₀ w → SkipsPoison c opts w := fun h => by
  have ⟨w, hr, hw⟩ := exists_run_of_exec
    (recoveryStep skippingBatchConsumer { DispatcherOptions.default with maxPendingGapRanges := 1 }) .start
    skipWhilePaused
    (fun w => w.slot.row.lastFailedEventId == some 1 && w.slot.row.lastProcessedEventId == 1 &&
      w.slot.row.pendingGaps == [])
    (by decide +kernel)
  simp only [Bool.and_eq_true, beq_iff_eq] at hw
  obtain ⟨⟨hid, hcursor⟩, hgaps⟩ := hw
  rcases ((h _ _ _ w registered_start hr).recorded 1 hid).2 with hlt | hc
  · rw [hcursor] at hlt
    exact Nat.lt_irrefl _ hlt
  · rw [hgaps] at hc
    exact covers_nil hc

end Kumiko
