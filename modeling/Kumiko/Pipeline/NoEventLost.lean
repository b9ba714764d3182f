import Kumiko.Library.Run
import Kumiko.Pipeline.Owes

/-!
# No event is lost

One consumer and any number of writers. The consumer is lossless (`Lossless`) as long as `xmax`, when a turn
reads it for the gaps it found, lies above every running writer with an id in them (`lossless_of_run`).
PostgreSQL does not promise that: a writer that claimed its id last and is the only one still running is not
below `xmax`, and its event is lost (`not_lossless`).
-/

namespace Kumiko

open Span Transition

/-- The log and one consumer. -/
structure Dispatch where
  log : Log
  slot : ConsumerSlot

/-- A step of a writer or of the consumer's turns. -/
inductive DispatchAct
  | writer (a : LogAct)
  | turn (a : TurnAct)

/-- One step of the system. -/
def dispatchStep (c : EventConsumer) (opts : DispatcherOptions) (w : Dispatch) :
    DispatchAct → Option Dispatch
  | .writer a => (w.log.step a).map fun log => { w with log }
  | .turn a => (turnStep c opts w.log w.slot a).map fun r => ⟨r.1, r.2⟩

/-- The consumer is registered at the beginning of an empty log. -/
def Dispatch.start : Dispatch := ⟨.initial, .registered 0 []⟩

/-- A turn that reads `xmax` finds every running writer with an id in its new gaps below it. -/
def XmaxStep (w : Dispatch) : DispatchAct → Prop
  | .writer _ => True
  | .turn a => XmaxOk w.log w.slot a

instance (w : Dispatch) (a : DispatchAct) : Decidable (XmaxStep w a) := by
  unfold XmaxStep
  split <;> infer_instance

/-- Nothing is lost: what the log holds up to the cursor was delivered or skipped by a handler
call, or is still pending, or was rolled back; nothing that commits was dropped as burnt; and the
gaps are sorted, pairwise disjoint and at or below the cursor. -/
structure Lossless (c : EventConsumer) (w : Dispatch) : Prop where
  accounted : ∀ r ∈ w.log.rows, r.id ≤ w.slot.row.lastProcessedEventId →
    r.id ∈ resolvedIds c w.slot.calls ∨ Covers w.slot.row.pendingGaps r.id ∨
      w.log.xacts.Aborted r.xid
  burnt : ∀ r ∈ w.log.rows, Covers w.slot.burnt r.id → w.log.xacts.Aborted r.xid
  ordered : Ordered w.slot.row.pendingGaps
  below : ∀ g ∈ w.slot.row.pendingGaps, g.toId ≤ w.slot.row.lastProcessedEventId

/-- The ids a turn in this phase has delivered or skipped. -/
def TurnPhase.resolved (c : EventConsumer) : TurnPhase → List ℕ
  | .delivered d _ _ => resolvedIds c d.calls
  | .persisted _ resolved _ => resolved
  | _ => []

/-- What turns have resolved was resolved by handler calls. -/
structure Recorded (c : EventConsumer) (s : ConsumerSlot) : Prop where
  resolved : ∀ id ∈ s.resolved, id ∈ resolvedIds c s.calls
  turn : ∀ t, s.turn = some t → ∀ id ∈ t.phase.resolved c, id ∈ resolvedIds c s.calls

section
variable {c : EventConsumer} {opts : DispatcherOptions} {l l' : Log} {s s' : ConsumerSlot}
  {a : TurnAct} {w w' : Dispatch}

theorem mem_resolvedIds_append {calls calls' : List HandlerCall} {id : ℕ} :
    id ∈ resolvedIds c (calls ++ calls') ↔ id ∈ resolvedIds c calls ∨ id ∈ resolvedIds c calls' := by
  simp [resolvedIds]

theorem Recorded.step (h : Recorded c s) (hs : TurnStep c opts l s a l' s') : Recorded c s' := by
  cases hs with
  | acquire | acquireSkip | readXmin | fetch | deliverNothing =>
    refine ⟨h.resolved, fun t ht => ?_⟩
    cases ht
    exact fun _ hid => nomatch hid
  | deliver =>
    refine ⟨fun id hid => mem_resolvedIds_append.2 (.inl (h.resolved id hid)),
      fun t ht id hid => mem_resolvedIds_append.2 (.inr ?_)⟩
    cases ht
    exact hid
  | readXmax ht =>
    refine ⟨h.resolved, fun t ht' => ?_⟩
    cases ht'
    have := h.turn _ ht
    exact this
  | commit ht =>
    refine ⟨fun id hid => ?_, ConsumerSlot.no_turn rfl⟩
    rcases List.mem_append.1 hid with hid | hid
    · exact h.resolved id hid
    · exact h.turn _ ht id hid
  | commitSkipped | abort => exact ⟨h.resolved, ConsumerSlot.no_turn rfl⟩
  | recordFailure hn => exact ⟨h.resolved, ConsumerSlot.no_turn hn⟩

/-- The invariant of the system. -/
structure DispatchInv (c : EventConsumer) (opts : DispatcherOptions) (w : Dispatch) : Prop where
  log : w.log.WF
  pruned : w.log.pruned = []
  slot : SlotInv c opts [] w.log w.slot
  recorded : Recorded c w.slot

/-- A freshly registered consumer owes the whole log. -/
theorem dispatchInv_start : DispatchInv c opts .start where
  log := Log.initial_wf
  pruned := rfl
  slot :=
    { owes := by
        refine ⟨ordered_nil, by simp [Dispatch.start, ConsumerSlot.registered], Nat.zero_lt_one,
          ?_, ?_, ?_, ?_, ⟨?_, ?_⟩, ?_, ?_⟩ <;>
        simp [Dispatch.start, ConsumerSlot.registered, Log.initial]
      batch := fun _ => rfl
      turn_state := ConsumerSlot.no_turn rfl
      turn_xid := ConsumerSlot.no_turn rfl
      turn_phase := ConsumerSlot.no_turn rfl }
  recorded := ⟨(fun _ h => nomatch h), ConsumerSlot.no_turn rfl⟩

theorem DispatchInv.step {a : DispatchAct} (h : DispatchInv c opts w) (hok : XmaxStep w a)
    (hs : dispatchStep c opts w a = some w') : DispatchInv c opts w' := by
  cases a with
  | writer a =>
    obtain ⟨l', hl, rfl⟩ := Option.map_eq_some_iff.1 hs
    have hw := h.log.step hl
    exact ⟨hw, (Log.step_pruned hl).trans h.pruned,
      h.slot.ext h.log hw (Log.ext_step hl) fun t ht => (h.slot.turn_xid t ht).step h.log hl,
      h.recorded⟩
  | turn a =>
    obtain ⟨⟨l', s'⟩, hl, rfl⟩ := Option.map_eq_some_iff.1 hs
    have hl := TurnStep.of_turnStep hl
    have ⟨_, hw, hp, _⟩ := hl.ext h.slot.turn_xid h.log
    exact ⟨hw, hp.trans h.pruned, h.slot.step h.log hok hl, h.recorded.step hl⟩

theorem DispatchInv.lossless (h : DispatchInv c opts w) : Lossless c w where
  accounted r hr hle := by
    have hnp : r.id ∉ w.log.pruned := by simp [h.pruned]
    rcases h.slot.owes.accounted r hr hle with hs | hc | hg
    · exact .inl (h.recorded.resolved _ hs)
    · exact .inr (.inl hc)
    · exact .inr (.inr (hg.resolve_right hnp))
  burnt r hr hc := by
    have hnp : r.id ∉ w.log.pruned := by simp [h.pruned]
    exact (h.slot.owes.burnt_gone.rows r hr hc).resolve_right hnp
  ordered := h.slot.owes.ordered
  below := h.slot.owes.below

/-- In every run whose turns read an `xmax` that covers the gaps they found, no event is lost. -/
theorem lossless_of_run (hr : Run (dispatchStep c opts) XmaxStep .start w) : Lossless c w :=
  (hr.invariant dispatchInv_start fun _ _ _ => DispatchInv.step).lossless

end

/-! ## The event that is lost -/

/-- The defaults of `createEventDispatcher`. -/
def DispatcherOptions.default : DispatcherOptions :=
  { batchSize := 200, maxAttempts := 10, maxRearmCount := 3, maxPendingGapRanges := 2000 }

/-- A consumer with a per-event handler and no error policy. -/
def perEventConsumer : EventConsumer := { batchHandler := false, errorPolicy := none }

/-- Handlers that never throw. -/
def HandlerAnswers.allOk : HandlerAnswers := { batch := .ok [], event := fun _ => none }

/-- The steps of a turn that delivers and commits. -/
def fullTurn (answers : HandlerAnswers) : List TurnAct :=
  [.acquire true, .readXmin, .fetch, .deliver answers, .readXmax, .commit]

/-- Some event of the log. -/
def someEvent (aggregateId : String) (version : ℤ) : NewEvent :=
  { tenantId := "tenant-a", aggregateType := "order", aggregateId, version,
    type := "order.changed", createdAt := 0, idempotencyKey := none }

/-- Two writers; the one that draws the lower event id, `late`, commits after the consumer's turns,
the other before them. -/
def lateCommit (late early : ℕ) (turns : List TurnAct) : List DispatchAct :=
  [.writer .claim, .writer .claim, .writer (.draw late), .writer (.draw early),
    .writer (.insert late 1 (someEvent "a" 1)), .writer (.insert early 2 (someEvent "b" 1)),
    .writer (.commit early)] ++
  turns.map .turn ++ [.writer (.commit late)]

/-- The writer with the lower transaction id commits late: its gap survives the second turn, and
the third one delivers its event. -/
theorem lossless_of_run_lateCommit : ∃ w : Dispatch, Lossless perEventConsumer w ∧
    w.slot.row.lastProcessedEventId = 2 ∧ w.slot.resolved = [2, 1] := by
  have ⟨w, hr, hw⟩ := exists_run_of_execOk (dispatchStep perEventConsumer .default)
    (fun w a => XmaxStep w a) .start
    (lateCommit 1 2 (fullTurn .allOk ++
      [.acquire true, .readXmin, .fetch, .deliver .allOk, .commit]) ++
      (fullTurn .allOk).map .turn)
    (fun w => w.slot.row.lastProcessedEventId == 2 && w.slot.resolved == [2, 1])
    (fun _ _ => of_decide_eq_true) (by decide +kernel) (by decide +kernel)
  simp only [Bool.and_eq_true, beq_iff_eq] at hw
  exact ⟨w, lossless_of_run hr, hw⟩

/-- The writer with the higher transaction id commits late: no transaction above it has completed
when the gap is recorded, so the second turn takes the gap for burnt, and the event is lost. -/
theorem not_lossless : ¬ ∀ (c : EventConsumer) (opts : DispatcherOptions) (w : Dispatch),
    Run (dispatchStep c opts) (fun _ _ => True) .start w → Lossless c w := fun h => by
  have ⟨w, hr, hw⟩ := exists_run_of_exec (dispatchStep perEventConsumer .default) .start
    (lateCommit 2 1 (fullTurn .allOk ++ fullTurn .allOk))
    (fun w => w.log.rows.any fun r => Covers w.slot.burnt r.id && !w.log.xacts.Aborted r.xid)
    (by decide +kernel)
  simp only [List.any_eq_true, Bool.and_eq_true, decide_eq_true_eq, Bool.not_eq_true',
    decide_eq_false_iff_not] at hw
  obtain ⟨r, hr', hb, ha⟩ := hw
  exact ha ((h _ _ w hr).burnt r hr' hb)

end Kumiko
