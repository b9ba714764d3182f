import Kumiko.Pipeline.SkipPoison

/-!
# The retry budget of a consumer

A turn that commits after its handler threw raises `attempts`; at `maxAttempts` the consumer is dead, and it is
revived at most `maxRearmCount` times. So the failed turns are bounded by a potential of the row
(`ConsumerStateRow.spent`, `boundedRetries_of_run`). A turn that rolls back and an error taken for transient do
not count. At its limit of pending gaps a batch consumer counts passes that deliver nothing
(`not_boundedRetries`).
-/

namespace Kumiko

open Transition

/-! ## What counts as a failed attempt -/

namespace HandlerCall

/-- The handler threw, and neither is the error transient nor does the error policy skip the event. -/
def failure (c : EventConsumer) : HandlerCall → Bool
  | .event _ (some e) => !c.skipApplyErrors && !c.isTransientError e
  | _ => false

/-- The ids that the call delivered. -/
def deliveredIds : HandlerCall → List ℕ
  | .batch es (.ok holds) => (es.filter fun row => row.id ∉ heldIds holds).map (·.id)
  | .event row none => [row.id]
  | _ => []

/-- A batch call that holds events, every hold of which waits out an earlier failure. -/
def BacksOff : HandlerCall → Prop
  | .batch es (.ok holds) => (∃ row ∈ es, row.id ∈ heldIds holds) ∧ ∀ hold ∈ holds, hold.stillBackingOff = true
  | _ => False

end HandlerCall

/-- The failed attempts among the calls. -/
def failures (c : EventConsumer) (calls : List HandlerCall) : ℕ := calls.countP (·.failure c)

/-- The ids that the calls delivered. -/
def deliveredIds (calls : List HandlerCall) : List ℕ := calls.flatMap (·.deliveredIds)

/-- A full round of attempts. Even with `maxAttempts` zero the consumer dies by a failure only. -/
def DispatcherOptions.round (opts : DispatcherOptions) (c : EventConsumer) : ℕ :=
  max 1 (c.effectiveMaxAttempts opts.maxAttempts)

/-- The attempts spent since the consumer last made progress, those before its rearms included. -/
def ConsumerStateRow.spent (row : ConsumerStateRow) (round : ℕ) : ℕ := row.rearmCount * round + row.attempts

/-- The budget of a row: its attempts and rearms stay within their limits, and only a dead row has used up a round. -/
structure WithinBudget (round maxRearmCount : ℕ) (row : ConsumerStateRow) : Prop where
  attempts : row.attempts ≤ round
  alive : row.status ≠ .dead → row.attempts < round
  rearms : row.rearmCount ≤ maxRearmCount

/-! ## The attempts of one delivery -/

/-- What a delivery does to the attempts. `paused` says whether the consumer takes no new events. -/
structure AttemptsSpec (c : EventConsumer) (round : ℕ) (paused : Bool) (before : ℕ) (o : DeliveryOutcome)
    (calls : List HandlerCall) : Prop where
  /-- A failure ends the delivery. -/
  one : failures c calls ≤ 1
  processed : o.processed = (deliveredIds calls).length
  /-- Without progress every failure is added. -/
  added : resolvedIds c calls = [] → before + failures c calls ≤ o.attempts
  /-- Without a failure nothing is added, unless a paused consumer does more than back off. -/
  kept : failures c calls = 0 → paused = false ∨ (∃ call ∈ calls, call.BacksOff) → o.attempts ≤ before
  /-- Progress starts the counter from zero. -/
  restarted : deliveredIds calls ≠ [] ∨ paused = false ∧ resolvedIds c calls ≠ [] → o.attempts = failures c calls
  le : o.attempts ≤ round
  alive : o.deadLettered = false → o.attempts < round

section
variable {c : EventConsumer} {opts : DispatcherOptions} {maxAttempts start pendingLimit pendingGapCount : ℕ}
  {answer : EventRow → Option HandlerError} {answers : HandlerAnswers} {o : DeliveryOutcome}
  {rows events : List EventRow} {state : ConsumerStateRow} {tenantIdsInRangesAbove : ℕ → List String}
  {call : HandlerCall} {calls : List HandlerCall}

@[simp] theorem failures_nil : failures c [] = 0 := rfl

@[simp] theorem failures_cons : failures c (call :: calls) = failures c calls + if call.failure c then 1 else 0 :=
  List.countP_cons ..

@[simp] theorem deliveredIds_nil : deliveredIds [] = [] := rfl

@[simp] theorem deliveredIds_cons : deliveredIds (call :: calls) = call.deliveredIds ++ deliveredIds calls :=
  List.flatMap_cons ..

/-- What is delivered is resolved. -/
theorem deliveredIds_subset {id : ℕ} (h : id ∈ deliveredIds calls) : id ∈ resolvedIds c calls := by
  obtain ⟨call, hcall, hid⟩ := List.mem_flatMap.1 h
  refine List.mem_flatMap.2 ⟨call, hcall, ?_⟩
  cases call with
  | batch es answer =>
    cases answer with
    | ok => exact hid
    | error => cases hid
  | event row answer =>
    cases answer with
    | none => exact hid
    | some => cases hid

theorem resolvedIds_ne_nil (h : deliveredIds calls ≠ []) : resolvedIds c calls ≠ [] := by
  obtain ⟨id, hid⟩ := List.exists_mem_of_ne_nil _ h
  exact List.ne_nil_of_mem (deliveredIds_subset hid)

/-- The loop adds its failure to the attempts, which it has set to zero when it resolved an event. -/
theorem deliverEach_attempts (c : EventConsumer) (maxAttempts start : ℕ) (answer : EventRow → Option HandlerError)
    (rows : List EventRow) (o : DeliveryOutcome) :
    failures c (deliverEach c maxAttempts start answer o rows).2 ≤ 1 ∧
    (deliverEach c maxAttempts start answer o rows).1.processed =
      o.processed + (deliveredIds (deliverEach c maxAttempts start answer o rows).2).length ∧
    (deliverEach c maxAttempts start answer o rows).1.attempts =
      (if resolvedIds c (deliverEach c maxAttempts start answer o rows).2 = [] then o.attempts else 0) +
        failures c (deliverEach c maxAttempts start answer o rows).2 := by
  induction rows generalizing o with
  | nil => simp [deliverEach]
  | cons row rows ih =>
    cases hans : answer row with
    | none =>
      obtain ⟨hone, hproc, hatt⟩ := ih { o.resolve start row.id with processed := o.processed + 1 }
      simp only [deliverEach, hans, failures_cons, HandlerCall.failure, Bool.false_eq_true, if_false, Nat.add_zero,
        deliveredIds_cons, HandlerCall.deliveredIds, resolvedIds_cons, HandlerCall.resolvedIds, List.singleton_append,
        reduceCtorEq, List.length_cons, Nat.zero_add]
      refine ⟨hone, hproc.trans (by dsimp only; omega), ?_⟩
      rw [hatt, DeliveryOutcome.resolve, ite_self, Nat.zero_add]
    | some e =>
      cases hskip : c.skipApplyErrors with
      | true =>
        obtain ⟨hone, hproc, hatt⟩ := ih { o.resolve start row.id with failed := o.failed + 1 }
        simp only [deliverEach, hans, hskip, if_true, failures_cons, HandlerCall.failure, Bool.not_true,
          Bool.false_and, Bool.false_eq_true, if_false, Nat.add_zero, deliveredIds_cons, HandlerCall.deliveredIds,
          List.nil_append, resolvedIds_cons, HandlerCall.resolvedIds, List.singleton_append, reduceCtorEq,
          Nat.zero_add]
        refine ⟨hone, hproc, ?_⟩
        rw [hatt, DeliveryOutcome.resolve, ite_self, Nat.zero_add]
      | false =>
        simp only [deliverEach, hans, hskip, Bool.false_eq_true, if_false]
        cases htrans : c.isTransientError e <;>
          simp [HandlerCall.failure, HandlerCall.deliveredIds, HandlerCall.resolvedIds, hskip, htrans]

/-- The loop dies of its last attempt only. -/
theorem deliverEach_alive (start : ℕ) (answer : EventRow → Option HandlerError) (rows : List EventRow)
    (o : DeliveryOutcome) (ho : o.attempts < opts.round c) (hd : o.deadLettered = false) :
    (deliverEach c opts.maxAttempts start answer o rows).1.attempts ≤ opts.round c ∧
    ((deliverEach c opts.maxAttempts start answer o rows).1.deadLettered = false →
      (deliverEach c opts.maxAttempts start answer o rows).1.attempts < opts.round c) := by
  have hpos : 0 < opts.round c := by unfold DispatcherOptions.round; omega
  induction rows generalizing o with
  | nil => exact ⟨ho.le, fun _ => ho⟩
  | cons row rows ih =>
    cases hans : answer row with
    | none =>
      simp only [deliverEach, hans]
      exact ih { o.resolve start row.id with processed := o.processed + 1 } hpos hd
    | some e =>
      cases hskip : c.skipApplyErrors with
      | true =>
        simp only [deliverEach, hans, hskip, if_true]
        exact ih { o.resolve start row.id with failed := o.failed + 1 } hpos hd
      | false =>
        simp only [deliverEach, hans, hskip, Bool.false_eq_true, if_false]
        cases htrans : c.isTransientError e with
        | true => exact ⟨ho.le, fun _ => ho⟩
        | false =>
          have hround : c.effectiveMaxAttempts opts.maxAttempts ≤ opts.round c := by
            unfold DispatcherOptions.round
            omega
          refine ⟨ho, fun hdead => ?_⟩
          simp only [Bool.false_eq_true, if_false, hd] at hdead ⊢
          split at hdead
          · cases hdead
          · omega

/-- The outcome of a delivery, before a paused intake escalates it. -/
theorem deliverEvents_attempts (ha : state.attempts < opts.round c) :
    AttemptsSpec c (opts.round c) false state.attempts (deliverEvents c events answers opts.maxAttempts state).1
      (deliverEvents c events answers opts.maxAttempts state).2 := by
  have hpos : 0 < opts.round c := by unfold DispatcherOptions.round; omega
  set each := deliverEach c opts.maxAttempts state.lastProcessedEventId answers.event (.start state none) events
    with heach
  obtain ⟨hone, hproc, hatt⟩ := deliverEach_attempts c opts.maxAttempts state.lastProcessedEventId answers.event events
    (.start state none)
  have ⟨hle, halive⟩ := deliverEach_alive state.lastProcessedEventId answers.event events (.start state none) ha rfl
  rw [← heach] at hone hproc hatt hle halive
  -- the loop, after a batch call that threw or without one
  have loop : ∀ calls, failures c calls = failures c each.2 → resolvedIds c calls = resolvedIds c each.2 →
      deliveredIds calls = deliveredIds each.2 →
      AttemptsSpec c (opts.round c) false state.attempts each.1 calls := fun calls hf hr hd =>
    { one := hf ▸ hone
      processed := by rw [hproc, hd, DeliveryOutcome.start, Nat.zero_add]
      added := fun hnone => by
        rw [hatt, ← hr, if_pos hnone, hf]
        exact le_refl _
      kept := fun hzero _ => by
        rw [hatt, ← hf, hzero, Nat.add_zero]
        split
        · exact le_refl _
        · exact Nat.zero_le _
      restarted := fun hprogress => by
        have hne : resolvedIds c calls ≠ [] := by
          rcases hprogress with hdel | hres
          · exact resolvedIds_ne_nil hdel
          · exact hres.2
        rw [hatt, ← hr, if_neg hne, hf, Nat.zero_add]
      le := hle
      alive := halive }
  unfold deliverEvents
  dsimp only
  rw [← heach]
  split
  · cases answers.batch with
    | ok holds =>
      have hids : resolvedIds c [.batch events (.ok holds)] =
          (events.filter fun row => row.id ∉ heldIds holds).map (·.id) := by
        simp [HandlerCall.resolvedIds]
      have hdel : deliveredIds [.batch events (.ok holds)] =
          (events.filter fun row => row.id ∉ heldIds holds).map (·.id) := by
        simp [HandlerCall.deliveredIds]
      have hfail : failures c [.batch events (.ok holds)] = 0 := by simp [HandlerCall.failure]
      have hcount : (outcomeOfAppliedBatch events state holds).attempts =
          if (events.filter fun row => row.id ∉ heldIds holds).map (·.id) = [] then state.attempts else 0 := by
        simp only [outcomeOfAppliedBatch, Bool.not_eq_true', List.isEmpty_eq_false_iff]
        split <;> simp_all
      refine ⟨by rw [hfail]; exact Nat.zero_le _, by rw [hdel]; rfl, fun hnone => ?_, fun _ _ => ?_, fun hprogress => ?_,
        ?_, fun _ => ?_⟩
      · rw [hfail, hcount, if_pos (hids ▸ hnone), Nat.add_zero]
      · dsimp only
        rw [hcount]
        split
        · exact le_refl _
        · exact Nat.zero_le _
      · rw [hfail, hcount, if_neg]
        rcases hprogress with h | h
        · rwa [hdel] at h
        · rw [← hids]
          exact h.2
      all_goals
        dsimp only
        rw [hcount]
        split <;> omega
    | error e =>
      exact loop _ (by simp [HandlerCall.failure]) (by simp [HandlerCall.resolvedIds])
        (by simp [HandlerCall.deliveredIds])
  · exact loop _ rfl rfl rfl

/-- A batch call that backs off leaves an outcome that says so. -/
theorem deliverEvents_backsOff {call : HandlerCall}
    (hcall : call ∈ (deliverEvents c events answers maxAttempts state).2) (hb : call.BacksOff) :
    (deliverEvents c events answers maxAttempts state).1.heldOnlyWhileBackingOff = true := by
  -- the loop calls no batch handler
  have hloop : ∀ (rows : List EventRow) (o : DeliveryOutcome),
      call ∉ (deliverEach c maxAttempts state.lastProcessedEventId answers.event o rows).2 := by
    intro rows
    induction rows with
    | nil => simp [deliverEach]
    | cons row rows ih =>
      have hne : ∀ answer, call ≠ .event row answer := by
        rintro answer rfl
        exact hb
      intro o
      cases hans : answers.event row with
      | none =>
        simp only [deliverEach, hans, List.mem_cons, not_or]
        exact ⟨hne _, ih _⟩
      | some e =>
        cases hskip : c.skipApplyErrors with
        | true =>
          simp only [deliverEach, hans, hskip, if_true, List.mem_cons, not_or]
          exact ⟨hne _, ih _⟩
        | false =>
          simp only [deliverEach, hans, hskip, Bool.false_eq_true, if_false, List.mem_singleton]
          exact hne _
  unfold deliverEvents at hcall ⊢
  dsimp only at hcall ⊢
  split at hcall
  · next hbatch =>
    rw [if_pos hbatch]
    cases hans : answers.batch with
    | ok holds =>
      simp only [hans, List.mem_singleton] at hcall ⊢
      subst hcall
      obtain ⟨⟨row, hrow, hheld⟩, hall⟩ := hb
      have hne : ((events.filter fun row => row.id ∈ heldIds holds).map (·.id)).isEmpty = false := by
        rw [List.isEmpty_eq_false_iff]
        exact List.ne_nil_of_mem (List.mem_map_of_mem (List.mem_filter.2 ⟨hrow, decide_eq_true hheld⟩))
      have hany : holds.any (fun hold => !hold.stillBackingOff) = false := by
        rw [List.any_eq_false]
        exact fun hold hmem => by simp [hall hold hmem]
      simp only [outcomeOfAppliedBatch, hne, hany, Bool.not_false, Bool.and_self]
    | error e =>
      simp only [hans, List.mem_cons] at hcall
      rcases hcall with rfl | hcall
      · exact hb.elim
      · exact absurd hcall (hloop _ _)
  · exact absurd hcall (hloop _ _)

/-- A delivery that a paused intake escalates. -/
theorem AttemptsSpec.escalate {deliverable : List EventRow} {count limit : ℕ} (ha : state.attempts < opts.round c)
    (h : AttemptsSpec c (opts.round c) false state.attempts o calls)
    (hb : ∀ call ∈ calls, call.BacksOff → o.heldOnlyWhileBackingOff = true) :
    AttemptsSpec c (opts.round c) true state.attempts
      (escalateIntakePausedOutcome o state deliverable count limit (c.effectiveMaxAttempts opts.maxAttempts)) calls := by
  have hround : c.effectiveMaxAttempts opts.maxAttempts ≤ opts.round c := by
    unfold DispatcherOptions.round
    omega
  unfold escalateIntakePausedOutcome
  dsimp only
  split
  · exact ⟨h.one, h.processed, h.added, fun hzero _ => h.kept hzero (.inl rfl),
      fun hprogress => h.restarted (hprogress.imp_right fun hres => nomatch hres.1), h.le, h.alive⟩
  · next hnot =>
    simp only [Bool.or_eq_true, decide_eq_true_eq, not_or, Nat.not_lt, Nat.le_zero] at hnot
    refine ⟨h.one, h.processed, fun hnone => ?_, fun _ hback => ?_, fun hprogress => ?_, ha, fun hdead => ?_⟩
    · have := h.one
      dsimp only
      omega
    · rcases hback with hpaused | ⟨call, hcall, hback⟩
      · cases hpaused
      · exact absurd (hb call hcall hback) hnot.2
    · rcases hprogress with hdel | hres
      · have hproc := h.processed
        rw [hnot.1] at hproc
        exact absurd (List.length_eq_zero_iff.1 hproc.symm) hdel
      · cases hres.1
    · simp only [decide_eq_false_iff_not, Nat.not_le] at hdead
      dsimp only
      omega

/-- What a turn does to the attempts. -/
theorem deliverConsumerTurn_attempts (ha : state.attempts < opts.round c) {t : TurnDelivery}
    (ht : deliverConsumerTurn c opts state events pendingLimit pendingGapCount tenantIdsInRangesAbove answers = t) :
    AttemptsSpec c (opts.round c) (isIntakePausedByPendingGapLimit c pendingGapCount opts.maxPendingGapRanges)
      state.attempts t.outcome t.calls := by
  have hdelivered : ∀ (deliverable : List EventRow) p, (if deliverable.isEmpty = true then
        (DeliveryOutcome.start state state.lastFailedEventId, [])
      else deliverEvents c deliverable answers opts.maxAttempts state) = p →
      AttemptsSpec c (opts.round c) false state.attempts p.1 p.2 ∧
        ∀ call ∈ p.2, call.BacksOff → p.1.heldOnlyWhileBackingOff = true := by
    rintro deliverable _ rfl
    split
    · exact ⟨⟨Nat.zero_le _, rfl, fun _ => le_refl _, fun _ _ => le_refl _, fun hprogress => by simp at hprogress,
        ha.le, fun _ => ha⟩, fun _ hcall => nomatch hcall⟩
    · exact ⟨deliverEvents_attempts ha, fun _ hcall hb => deliverEvents_backsOff hcall hb⟩
  subst ht
  cases hpaused : isIntakePausedByPendingGapLimit c pendingGapCount opts.maxPendingGapRanges with
  | true =>
    simp only [deliverConsumerTurn, hpaused, if_true]
    exact (hdelivered _ _ rfl).1.escalate ha (hdelivered _ _ rfl).2
  | false =>
    simp only [deliverConsumerTurn, hpaused, Bool.false_eq_true, if_false]
    exact (hdelivered _ _ rfl).1

end

/-! ## The turns of a consumer -/

/-- A consumer, its operator and the writers, with the calls of the turn in progress, whether its intake was paused
when it delivered, and the calls of the turns that committed. -/
structure Retries where
  recovery : Recovery
  turnCalls : List HandlerCall
  turnPaused : Bool
  committed : List HandlerCall

namespace Retries

/-- The consumer's row. -/
def row (w : Retries) : ConsumerStateRow := w.recovery.slot.row

/-- Every invocation of a handler so far, those of turns that rolled back included. -/
def calls (w : Retries) : List HandlerCall := w.recovery.slot.calls

/-- The turn that has fetched takes no new events. -/
def intakePaused (c : EventConsumer) (opts : DispatcherOptions) (w : Retries) : Bool :=
  match w.recovery.slot.turn with
  | some ⟨_, state, .fetched xminNow events⟩ =>
    isIntakePausedByPendingGapLimit c (burntAndSurviving c opts state xminNow events).2.length opts.maxPendingGapRanges
  | _ => false

def start (recovery : Recovery) : Retries := ⟨recovery, [], false, []⟩

end Retries

/-- One step, which records what the turn in progress has called. -/
def retriesStep (c : EventConsumer) (opts : DispatcherOptions) (w : Retries) (a : RecoveryAct) : Option Retries :=
  (recoveryStep c opts w.recovery a).map fun recovery =>
    match a with
    | .turn (.deliver _) =>
      { w with
        recovery, turnCalls := recovery.slot.calls.drop w.calls.length, turnPaused := w.intakePaused c opts }
    | .turn .commit => { recovery, turnCalls := [], turnPaused := false, committed := w.committed ++ w.turnCalls }
    | .turn .abort => { w with recovery, turnCalls := [], turnPaused := false }
    | _ => { w with recovery }

/-- No turn makes progress, and no operator resets the consumer. -/
def Unaided (c : EventConsumer) (w : Retries) : RecoveryAct → Prop
  | .turn .commit => resolvedIds c w.turnCalls = []
  | .skip _ | .setStatus _ => False
  | _ => True

instance (c : EventConsumer) (w : Retries) (a : RecoveryAct) : Decidable (Unaided c w a) := by
  unfold Unaided
  split <;> infer_instance

/-- The consumer is dead and is not revived any more. -/
def Exhausted (opts : DispatcherOptions) (row : ConsumerStateRow) : Prop :=
  row.status = .dead ∧ opts.maxRearmCount ≤ row.rearmCount

/-- What the commit of a turn does to the attempts. -/
structure CommitCounted (c : EventConsumer) (w w' : Retries) : Prop where
  /-- A turn whose handler threw no counting error does not raise them, unless its intake is paused and it does more
  than back off. -/
  kept : failures c w.turnCalls = 0 → w.turnPaused = false ∨ (∃ call ∈ w.turnCalls, call.BacksOff) →
    w'.row.attempts ≤ w.row.attempts
  /-- A turn that makes progress counts from zero, and fails once at most. -/
  restarted : deliveredIds w.turnCalls ≠ [] ∨ w.turnPaused = false ∧ resolvedIds c w.turnCalls ≠ [] →
    w'.row.attempts = failures c w.turnCalls ∧ failures c w.turnCalls ≤ 1

/-- What a step does to the attempts: of the steps of a turn only its commit touches them. -/
def AttemptsCounted (c : EventConsumer) (w w' : Retries) : RecoveryAct → Prop
  | .turn .commit => CommitCounted c w w'
  | .turn _ => w'.row.attempts = w.row.attempts
  | _ => True

/-- The failed attempts between two states are at most a round for each life of the consumer, and when all are spent
the consumer is dead and calls no handler any more. -/
structure BoundedRetries (c : EventConsumer) (opts : DispatcherOptions) (w₁ w₂ : Retries) : Prop where
  bounded : failures c w₂.committed ≤ failures c w₁.committed + (opts.maxRearmCount + 1) * opts.round c
  spent : failures c w₂.committed = failures c w₁.committed + (opts.maxRearmCount + 1) * opts.round c →
    Exhausted opts w₂.row
  dead : Exhausted opts w₂.row → ∀ w₃, Run (retriesStep c opts) (Unaided c) w₂ w₃ →
    Exhausted opts w₃.row ∧ w₃.calls = w₂.calls

/-! ## The invariant -/

/-- The invariant of a turn's phase, over the row the turn goes on with and what it has called. -/
def TurnBudget (c : EventConsumer) (opts : DispatcherOptions) (turnCalls : List HandlerCall) (turnPaused : Bool)
    (state : ConsumerStateRow) : TurnPhase → Prop
  | .acquired | .xminRead _ | .fetched _ _ => turnCalls = [] ∧ state.attempts < opts.round c
  | .skipped => turnCalls = []
  | .delivered d _ _ =>
    turnCalls = d.calls ∧ AttemptsSpec c (opts.round c) turnPaused state.attempts d.outcome d.calls
  | .persisted row _ _ => ∃ o gaps, row = state.deliveryOutcome o gaps ∧
    AttemptsSpec c (opts.round c) turnPaused state.attempts o turnCalls

/-- What every run maintains. -/
structure BudgetInv (c : EventConsumer) (opts : DispatcherOptions) (w : Retries) : Prop where
  row : WithinBudget (opts.round c) opts.maxRearmCount w.row
  idle : w.recovery.slot.turn = none → w.turnCalls = []
  turn : ∀ t, w.recovery.slot.turn = some t → w.row.spent (opts.round c) ≤ t.state.spent (opts.round c) ∧
    t.state.attempts ≤ w.row.attempts ∧ WithinBudget (opts.round c) opts.maxRearmCount t.state ∧
    TurnBudget c opts w.turnCalls w.turnPaused t.state t.phase
  /-- A turn finds nothing to do on a row that is exhausted. -/
  exhausted : ∀ t, w.recovery.slot.turn = some t → Exhausted opts w.row → t.phase = .skipped ∧ t.state = w.row
  skip : ∀ k, w.recovery.skip = some k → w.recovery.slot.turn = none ∧
    WithinBudget (opts.round c) opts.maxRearmCount k.before ∧
    ∀ row id, k.phase = .written row id → WithinBudget (opts.round c) opts.maxRearmCount row

section
variable {c : EventConsumer} {opts : DispatcherOptions} {w w' w₁ w₂ : Retries} {a : RecoveryAct}
  {row state : ConsumerStateRow} {o : DeliveryOutcome} {gaps : List PendingGapEntry} {calls turnCalls : List HandlerCall}
  {paused : Bool}

theorem round_pos : 0 < opts.round c := by
  unfold DispatcherOptions.round
  omega

/-- A row that an operator has reset. -/
theorem WithinBudget.of_reset (ha : row.attempts = 0) (hr : row.rearmCount = 0) :
    WithinBudget (opts.round c) opts.maxRearmCount row :=
  ⟨by rw [ha]; exact Nat.zero_le _, fun _ => by rw [ha]; exact round_pos, by rw [hr]; exact Nat.zero_le _⟩

/-- What is spent never exceeds a round for each life. -/
theorem WithinBudget.spent_le {round maxRearmCount : ℕ} (h : WithinBudget round maxRearmCount row) :
    row.spent round ≤ (maxRearmCount + 1) * round := by
  have hrearms := Nat.mul_le_mul_right round h.rearms
  have hattempts := h.attempts
  rw [ConsumerStateRow.spent, Nat.add_mul, Nat.one_mul]
  omega

/-- A row that has spent everything is exhausted. -/
theorem WithinBudget.exhausted (h : WithinBudget (opts.round c) opts.maxRearmCount row)
    (hs : (opts.maxRearmCount + 1) * opts.round c ≤ row.spent (opts.round c)) : Exhausted opts row := by
  have hattempts := h.attempts
  rw [ConsumerStateRow.spent, Nat.add_mul, Nat.one_mul] at hs
  have hrearms : opts.maxRearmCount ≤ row.rearmCount := by
    by_contra hlt
    have hmul := Nat.mul_le_mul_right (opts.round c) (Nat.succ_le_of_lt (Nat.not_le.1 hlt))
    have hpos : 0 < opts.round c := round_pos
    rw [Nat.succ_mul] at hmul
    omega
  refine ⟨?_, hrearms⟩
  by_contra hne
  have halive := h.alive hne
  have hmul := Nat.mul_le_mul_right (opts.round c) h.rearms
  omega

/-- The row that a turn goes on with has spent at least as much, and has attempts left. -/
theorem acquire_budget {cool : Bool} (h : WithinBudget (opts.round c) opts.maxRearmCount row)
    (ha : acquireConsumerState opts row cool = some state) :
    row.spent (opts.round c) ≤ state.spent (opts.round c) ∧ state.attempts ≤ row.attempts ∧
      WithinBudget (opts.round c) opts.maxRearmCount state ∧ state.attempts < opts.round c ∧ ¬ Exhausted opts row := by
  unfold acquireConsumerState at ha
  split at ha
  · cases ha
  · next hdead =>
    simp only [Option.ite_none_right_eq_some, Bool.and_eq_true, decide_eq_true_eq] at ha
    obtain ⟨⟨-, hlt⟩, ha⟩ := ha
    cases ha
    refine ⟨?_, Nat.zero_le _, ⟨Nat.zero_le _, fun _ => round_pos, hlt⟩, round_pos, fun he => ?_⟩
    · have := h.attempts
      simp only [ConsumerStateRow.spent, ConsumerStateRow.rearm, Nat.succ_mul]
      omega
    · exact Nat.lt_irrefl _ (hlt.trans_le he.2)
  · next hs =>
    cases ha
    exact ⟨le_refl _, le_refl _, h, h.alive (by simp [hs]), fun he => by simp [Exhausted, hs] at he⟩
  · next hs =>
    cases ha
    exact ⟨le_refl _, le_refl _, h, h.alive (by simp [hs]), fun he => by simp [Exhausted, hs] at he⟩

/-- The row that a turn writes. -/
theorem AttemptsSpec.written (gaps : List PendingGapEntry)
    (h : AttemptsSpec c (opts.round c) paused state.attempts o calls)
    (hstate : WithinBudget (opts.round c) opts.maxRearmCount state) :
    WithinBudget (opts.round c) opts.maxRearmCount (state.deliveryOutcome o gaps) ∧
      (resolvedIds c calls = [] →
        state.spent (opts.round c) + failures c calls ≤ (state.deliveryOutcome o gaps).spent (opts.round c)) := by
  refine ⟨⟨h.le, fun hne => h.alive ?_, ?_⟩, fun hnone => ?_⟩
  · simpa [ConsumerStateRow.deliveryOutcome] using hne
  · simp only [ConsumerStateRow.deliveryOutcome]
    split
    · exact Nat.zero_le _
    · exact hstate.rearms
  · have hadded := h.added hnone
    have hproc : o.processed = 0 := by
      rw [h.processed, List.length_eq_zero_iff]
      by_contra hne
      exact resolvedIds_ne_nil hne hnone
    simp only [ConsumerStateRow.spent, ConsumerStateRow.deliveryOutcome, hproc, gt_iff_lt, Nat.lt_irrefl, if_false]
    omega

/-- What a step of a turn leaves. -/
structure StepBudget (c : EventConsumer) (opts : DispatcherOptions) (w w' : Retries) (a : RecoveryAct) : Prop where
  inv : BudgetInv c opts w'
  counted : AttemptsCounted c w w' a
  spent : Unaided c w a →
    failures c w'.committed + w.row.spent (opts.round c) ≤ failures c w.committed + w'.row.spent (opts.round c)

/-- A row that nobody holds. -/
theorem BudgetInv.unlocked {l : Log} {slot : ConsumerSlot} {committed : List HandlerCall} (hturn : slot.turn = none)
    (h : WithinBudget (opts.round c) opts.maxRearmCount slot.row) :
    BudgetInv c opts ⟨⟨l, slot, none⟩, [], paused, committed⟩ :=
  ⟨h, fun _ => rfl, fun t ht => by simp [hturn] at ht, fun t ht => by simp [hturn] at ht, fun _ hk => nomatch hk⟩

/-- A step of a turn. -/
theorem BudgetInv.turnStep {l l' : Log} {slot slot' : ConsumerSlot} {committed : List HandlerCall} {b : TurnAct}
    (h : BudgetInv c opts ⟨⟨l, slot, none⟩, turnCalls, paused, committed⟩) (hs : TurnStep c opts l slot b l' slot')
    (hw : retriesStep c opts ⟨⟨l, slot, none⟩, turnCalls, paused, committed⟩ (.turn b) = some w')
    (hr : w'.recovery = ⟨l', slot', none⟩) :
    StepBudget c opts ⟨⟨l, slot, none⟩, turnCalls, paused, committed⟩ w' (.turn b) := by
  obtain ⟨r, -, hr'⟩ := Option.map_eq_some_iff.1 hw
  -- a turn goes on with the row as it is
  have phase : ∀ (t : Turn) (p : TurnPhase) (calls turnCalls' : List HandlerCall) (paused' : Bool) (b : TurnAct),
      slot.turn = some t → t.phase ≠ .skipped → TurnBudget c opts turnCalls' paused' t.state p → b ≠ .commit →
      w' = ⟨⟨l', { slot with turn := some { t with phase := p }, calls }, none⟩, turnCalls', paused', committed⟩ →
      StepBudget c opts ⟨⟨l, slot, none⟩, turnCalls, paused, committed⟩ w' (.turn b) := by
    rintro t p calls turnCalls' paused' b ht hne hp hb rfl
    obtain ⟨hspent, hle, hstate, -⟩ := h.turn t ht
    refine ⟨⟨h.row, fun hn => (nomatch hn), fun t' ht' => ?_, fun t' ht' he => ?_, fun _ hk => nomatch hk⟩, ?_,
      fun _ => le_refl _⟩
    · cases ht'
      exact ⟨hspent, hle, hstate, hp⟩
    · exact absurd (h.exhausted t ht he).1 hne
    · cases b <;> first | rfl | exact absurd rfl hb
  cases hs with
  | acquire hn ha =>
    cases hr'
    cases hr
    have ⟨hspent, hle, hstate, hlt, hlive⟩ := acquire_budget h.row ha
    refine ⟨⟨h.row, fun hn => (nomatch hn), fun t ht => ?_, fun t ht he => ?_, fun _ hk => nomatch hk⟩, rfl,
      fun _ => le_refl _⟩
    · cases ht
      exact ⟨hspent, hle, hstate, h.idle hn, hlt⟩
    · exact absurd he hlive
  | acquireSkip hn ha =>
    cases hr'
    cases hr
    refine ⟨⟨h.row, fun hn => (nomatch hn), fun t ht => ?_, fun t ht _ => ?_, fun _ hk => nomatch hk⟩, rfl,
      fun _ => le_refl _⟩
    · cases ht
      exact ⟨le_refl _, le_refl _, h.row, h.idle hn⟩
    · cases ht
      exact ⟨rfl, rfl⟩
  | readXmin ht =>
    cases hr'
    cases hr
    exact phase _ (.xminRead _) _ _ _ _ ht (by simp) (h.turn _ ht).2.2.2 (by simp) rfl
  | fetch ht =>
    cases hr'
    cases hr
    exact phase _ (.fetched _ _) _ _ _ _ ht (by simp) (h.turn _ ht).2.2.2 (by simp) rfl
  | deliverNothing ht =>
    cases hr'
    cases hr
    exact phase _ .skipped _ _ _ _ ht (by simp) (List.drop_length ..) (by simp) rfl
  | deliver ht =>
    cases hr'
    cases hr
    have hlt := (h.turn _ ht).2.2.2.2
    refine phase _ (.delivered _ _ _) _ _ _ _ ht (by simp) ⟨List.drop_left .., ?_⟩ (by simp) rfl
    simp only [Retries.intakePaused, ht]
    exact deliverConsumerTurn_attempts hlt rfl
  | readXmax ht =>
    cases hr'
    cases hr
    obtain ⟨rfl, hspec⟩ := (h.turn _ ht).2.2.2
    exact phase _ (.persisted _ _ _) _ _ _ _ ht (by simp) ⟨_, _, rfl, hspec⟩ (by simp) rfl
  | commit ht =>
    rw [← hr'] at hr
    cases hr
    obtain ⟨hspent, hle, hstate, o, gaps, hrow, hspec⟩ := h.turn _ ht
    have ⟨hbudget, hadded⟩ := hspec.written gaps hstate
    rw [← hrow] at hbudget hadded
    have hatt : w'.row.attempts = o.attempts := by
      cases hr'
      exact congrArg ConsumerStateRow.attempts hrow
    cases hr'
    refine ⟨.unlocked rfl hbudget, ⟨fun hzero hnot => ?_, fun hprogress => ?_⟩, fun hok => ?_⟩
    · exact hatt.trans_le ((hspec.kept hzero hnot).trans hle)
    · exact ⟨hatt.trans (hspec.restarted hprogress), hspec.one⟩
    · have := hadded hok
      simp only [Retries.row, failures, List.countP_append] at hspent this ⊢
      omega
  | commitSkipped ht =>
    cases hr'
    cases hr
    obtain ⟨hspent, hle, hstate, hnil⟩ := h.turn _ ht
    have hnil : turnCalls = [] := hnil
    subst hnil
    refine ⟨.unlocked rfl hstate, ⟨fun _ _ => hle, fun hprogress => by simp at hprogress⟩, fun _ => ?_⟩
    rw [List.append_nil]
    exact Nat.add_le_add_left hspent _
  | abort ht =>
    cases hr'
    cases hr
    exact ⟨.unlocked rfl h.row, rfl, fun _ => le_refl _⟩
  | recordFailure hn =>
    cases hr'
    cases hr
    have hnil : turnCalls = [] := h.idle hn
    subst hnil
    exact ⟨.unlocked hn ⟨h.row.attempts, h.row.alive, h.row.rearms⟩, rfl, fun _ => le_refl _⟩

theorem retriesStep_recovery (hs : retriesStep c opts w a = some w') :
    recoveryStep c opts w.recovery a = some w'.recovery := by
  obtain ⟨r, hr, rfl⟩ := Option.map_eq_some_iff.1 hs
  rw [hr]
  split <;> rfl

/-- Every step keeps the budget. -/
theorem BudgetInv.step (h : BudgetInv c opts w) (hs : retriesStep c opts w a = some w') : StepBudget c opts w w' a := by
  obtain ⟨⟨l, slot, skip⟩, turnCalls, paused, committed⟩ := w
  have hs' := hs
  obtain ⟨r, hr, rfl⟩ := Option.map_eq_some_iff.1 hs
  -- a step of the other parties, with the row locked by the same call or turn
  have other : ∀ (l' : Log) (skip' : Option SkipCall) (b : RecoveryAct),
      (∀ k, skip' = some k → slot.turn = none ∧ WithinBudget (opts.round c) opts.maxRearmCount k.before ∧
        ∀ row id, k.phase = .written row id → WithinBudget (opts.round c) opts.maxRearmCount row) →
      (∀ x, b ≠ .turn x) → StepBudget c opts ⟨⟨l, slot, skip⟩, turnCalls, paused, committed⟩
        ⟨⟨l', slot, skip'⟩, turnCalls, paused, committed⟩ b := fun l' skip' b hk hb =>
    ⟨⟨h.row, h.idle, h.turn, h.exhausted, hk⟩, by cases b <;> first | trivial | exact absurd rfl (hb _),
      fun _ => le_refl _⟩
  -- the operator has written the row
  have reset : ∀ (l' : Log) (row : ConsumerStateRow) (b : RecoveryAct), slot.turn = none →
      WithinBudget (opts.round c) opts.maxRearmCount row → (∀ x, b ≠ .turn x) →
      ¬ Unaided c ⟨⟨l, slot, skip⟩, turnCalls, paused, committed⟩ b →
      StepBudget c opts ⟨⟨l, slot, skip⟩, turnCalls, paused, committed⟩
        ⟨⟨l', { slot with row }, none⟩, turnCalls, paused, committed⟩ b := fun l' row b hturn hrow hb hnot => by
    have hnil : turnCalls = [] := h.idle hturn
    subst hnil
    exact ⟨.unlocked hturn hrow, by cases b <;> first | trivial | exact absurd rfl (hb _), fun hok => absurd hok hnot⟩
  cases RecoveryStep.of_step hr with
  | writer => exact other _ _ _ h.skip (by simp)
  | turn hskip ht =>
    have hskip' : skip = none := hskip
    subst hskip'
    refine h.turnStep ht hs' (Option.some.inj ?_)
    rw [← retriesStep_recovery hs', hr]
  | lock hfree =>
    refine other _ _ _ (fun k hk => ?_) (by simp)
    cases hk
    exact ⟨hfree.1, h.row, fun _ _ hp => nomatch hp⟩
  | reject => exact other _ _ _ h.skip (by simp)
  | choosePending hk | choosePoison hk =>
    refine other _ _ _ (fun k hk' => ?_) (by simp)
    cases hk'
    have ⟨hturn, hbefore, _⟩ := h.skip _ hk
    exact ⟨hturn, hbefore, fun _ _ hp => nomatch hp⟩
  | writePending hk | writeAbove hk =>
    refine other _ _ _ (fun k hk' => ?_) (by simp)
    cases hk'
    have ⟨hturn, hbefore, _⟩ := h.skip _ hk
    refine ⟨hturn, hbefore, fun _ _ hp => ?_⟩
    cases hp
    exact .of_reset rfl rfl
  | writeNothing hk =>
    refine other _ _ _ (fun k hk' => ?_) (by simp)
    cases hk'
    have ⟨hturn, hbefore, _⟩ := h.skip _ hk
    refine ⟨hturn, hbefore, fun _ _ hp => ?_⟩
    cases hp
    exact hbefore
  | commit hk =>
    have ⟨hturn, _, hrow⟩ := h.skip _ hk
    exact reset _ _ _ hturn (hrow _ _ rfl) (by simp) id
  | abort hk => exact other _ _ _ (fun _ hk' => nomatch hk') (by simp)
  | setStatus hfree =>
    have hskip : skip = none := hfree.2
    subst hskip
    exact reset _ _ _ hfree.1 (.of_reset rfl rfl) (by simp) id

/-- A freshly registered consumer has its whole budget. -/
theorem Recovery.Registered.budget {w₀ : Recovery} (h : w₀.Registered) : BudgetInv c opts (.start w₀) := by
  obtain ⟨l, slot, skip⟩ := w₀
  obtain ⟨-, ⟨cursor, gaps, hslot⟩, -, hfree⟩ := h
  cases hslot
  cases hfree
  exact .unlocked rfl (.of_reset rfl rfl)

/-- A run without aid lowers nothing of what is spent. -/
theorem BudgetInv.spent_of_run (h : BudgetInv c opts w₁) (hr : Run (retriesStep c opts) (Unaided c) w₁ w₂) :
    BudgetInv c opts w₂ ∧
      failures c w₂.committed + w₁.row.spent (opts.round c) ≤ failures c w₁.committed + w₂.row.spent (opts.round c) := by
  refine hr.invariant (I := fun w => BudgetInv c opts w ∧
      failures c w.committed + w₁.row.spent (opts.round c) ≤ failures c w₁.committed + w.row.spent (opts.round c))
    ⟨h, le_refl _⟩ fun w a w' ⟨hinv, hle⟩ hok hs => ?_
  have hstep := hinv.step hs
  have := hstep.spent hok
  exact ⟨hstep.inv, by omega⟩

/-- An exhausted consumer stays so, and its turns call no handler. -/
theorem exhausted_step (h : BudgetInv c opts w) (he : Exhausted opts w.row) (hok : Unaided c w a)
    (hs : retriesStep c opts w a = some w') : Exhausted opts w'.row ∧ w'.calls = w.calls := by
  have hskipped : ∀ t, w.recovery.slot.turn = some t → t.phase = .skipped ∧ t.state = w.row := fun t ht =>
    h.exhausted t ht he
  have hr := RecoveryStep.of_step (retriesStep_recovery hs)
  obtain ⟨⟨l, slot, skip⟩, turnCalls, paused, committed⟩ := w
  obtain ⟨⟨l', slot', skip'⟩, turnCalls', paused', committed'⟩ := w'
  cases hr with
  | turn _ ht =>
    cases ht with
    | acquire | acquireSkip | abort | recordFailure => exact ⟨he, rfl⟩
    | readXmin ht | fetch ht | deliverNothing ht | deliver ht | readXmax ht | commit ht =>
      exact nomatch (hskipped _ ht).1
    | commitSkipped ht =>
      have hstate := (hskipped _ ht).2
      exact ⟨(congrArg (Exhausted opts) hstate).mpr he, rfl⟩
  | writer => exact ⟨he, rfl⟩
  | lock | reject | choosePending | choosePoison | writePending | writeAbove | writeNothing | commit | abort
  | setStatus => exact hok.elim

/-- The failed attempts of a consumer that makes no progress and gets no aid are bounded, and what a step does to the
counter is as declared, from every reachable state on. -/
theorem boundedRetries_of_run {w₀ : Recovery} (h₀ : w₀.Registered)
    (hr₁ : Run (retriesStep c opts) (fun _ _ => True) (.start w₀) w₁) :
    (∀ w₂, Run (retriesStep c opts) (Unaided c) w₁ w₂ → BoundedRetries c opts w₁ w₂) ∧
      ∀ a w', retriesStep c opts w₁ a = some w' → AttemptsCounted c w₁ w' a := by
  have h₁ : BudgetInv c opts w₁ := hr₁.invariant h₀.budget fun _ _ _ h _ hs => (h.step hs).inv
  refine ⟨fun w₂ hr₂ => ?_, fun a w' hs => (h₁.step hs).counted⟩
  have ⟨h₂, hle⟩ := h₁.spent_of_run hr₂
  have hspent := h₂.row.spent_le
  refine ⟨by omega, fun heq => h₂.row.exhausted (by omega), fun he w₃ hr₃ => ?_⟩
  have hall := hr₃.invariant (I := fun w => BudgetInv c opts w ∧ Exhausted opts w.row ∧ w.calls = w₂.calls)
    ⟨h₂, he, rfl⟩ fun w a w' ⟨hinv, he, hc⟩ hok hs => by
      have ⟨he', hc'⟩ := exhausted_step hinv he hok hs
      exact ⟨(hinv.step hs).inv, he', hc'.trans hc⟩
  exact hall.2

end

/-! ## A consumer that dies, and calls that no budget bounds -/

/-- An event that the handler throws for, and `n` turns that try it. -/
def failingTurns (n : ℕ) : List RecoveryAct :=
  [.writer .claim, .writer (.draw 1), .writer (.insert 1 1 (someEvent "a" 1)), .writer (.commit 1)] ++
  (List.replicate n (fullTurn (.throwing 1 (.ok [])))).flatten.map .turn

/-- With two attempts and one rearm, the fourth failure is the last one. -/
theorem boundedRetries_of_run_dies : ∃ w : Retries,
    BoundedRetries perEventConsumer { DispatcherOptions.default with maxAttempts := 2, maxRearmCount := 1 }
      (.start .start) w ∧ failures perEventConsumer w.committed = 4 ∧ w.row.status = .dead := by
  have ⟨w, hr, hw⟩ := exists_run_of_execOk
    (retriesStep perEventConsumer { DispatcherOptions.default with maxAttempts := 2, maxRearmCount := 1 })
    (fun w a => Unaided perEventConsumer w a) (.start .start) (failingTurns 4)
    (fun w => failures perEventConsumer w.committed == 4 && w.row.status == .dead)
    (fun _ _ => of_decide_eq_true) (by decide +kernel) (by decide +kernel)
  simp only [Bool.and_eq_true, beq_iff_eq] at hw
  exact ⟨w, (boundedRetries_of_run registered_start .start).1 w hr, hw⟩

/-- A consumer that takes every error for transient. -/
def transientConsumer : EventConsumer :=
  { batchHandler := false, errorPolicy := some ⟨none, false, fun _ => true⟩ }

/-- A batch handler holds the only event, in a pass that takes new events and in one that does not. -/
def holdsAtTheLimit : List RecoveryAct :=
  [.writer .claim, .writer (.draw 1), .writer (.insert 1 1 (someEvent "a" 1)), .writer (.commit 1)] ++
  (List.replicate 2 (fullTurn (.throwing 1 (.ok [⟨[1], "index rejects writes", false⟩])))).flatten.map .turn

/-- The invocations of the handler that threw for an event. -/
def throwsFor (id : ℕ) (calls : List HandlerCall) : ℕ :=
  calls.countP fun call => match call with
    | .event row (some _) => row.id == id
    | _ => false

/-- A transient error is retried without end, a handler that may fail zero times is called once, and a hold counts as
a failed attempt when the pending gaps are at their limit. -/
theorem not_boundedRetries :
    (¬ ∀ (c : EventConsumer) (opts : DispatcherOptions) (w₀ : Recovery) (w : Retries), w₀.Registered →
      Run (retriesStep c opts) (Unaided c) (.start w₀) w → ∀ id,
      throwsFor id w.calls ≤ (opts.maxRearmCount + 1) * max 1 (c.effectiveMaxAttempts opts.maxAttempts)) ∧
    (¬ ∀ (c : EventConsumer) (opts : DispatcherOptions) (w₀ : Recovery) (w : Retries), w₀.Registered →
      Run (retriesStep c opts) (Unaided c) (.start w₀) w →
      failures c w.committed ≤ (opts.maxRearmCount + 1) * c.effectiveMaxAttempts opts.maxAttempts) ∧
    ¬ ∀ (c : EventConsumer) (opts : DispatcherOptions) (w₀ : Recovery) (w : Retries), w₀.Registered →
      Run (retriesStep c opts) (Unaided c) (.start w₀) w →
      w.committed.all (fun call => match call with
        | .batch _ (.ok _) => true
        | _ => false) → w.row.attempts = 0 := by
  refine ⟨fun h => ?_, fun h => ?_, fun h => ?_⟩
  · have ⟨w, hr, hw⟩ := exists_run_of_execOk
      (retriesStep transientConsumer { DispatcherOptions.default with maxAttempts := 1, maxRearmCount := 0 })
      (fun w a => Unaided transientConsumer w a) (.start .start) (failingTurns 2) (fun w => throwsFor 1 w.calls == 2)
      (fun _ _ => of_decide_eq_true) (by decide +kernel) (by decide +kernel)
    have hle := h _ _ _ w registered_start hr 1
    rw [beq_iff_eq.1 hw] at hle
    exact absurd hle (by decide)
  · have ⟨w, hr, hw⟩ := exists_run_of_execOk
      (retriesStep perEventConsumer { DispatcherOptions.default with maxAttempts := 0, maxRearmCount := 0 })
      (fun w a => Unaided perEventConsumer w a) (.start .start) (failingTurns 1)
      (fun w => failures perEventConsumer w.committed == 1)
      (fun _ _ => of_decide_eq_true) (by decide +kernel) (by decide +kernel)
    have hle := h _ _ _ w registered_start hr
    rw [beq_iff_eq.1 hw] at hle
    exact absurd hle (by decide)
  · have ⟨w, hr, hw⟩ := exists_run_of_execOk
      (retriesStep skippingBatchConsumer { DispatcherOptions.default with maxPendingGapRanges := 1 })
      (fun w a => Unaided skippingBatchConsumer w a) (.start .start) holdsAtTheLimit
      (fun w => w.committed.all (fun call => match call with
        | .batch _ (.ok _) => true
        | _ => false) && w.row.attempts == 1)
      (fun _ _ => of_decide_eq_true) (by decide +kernel) (by decide +kernel)
    rw [Bool.and_eq_true, beq_iff_eq] at hw
    have hzero := h _ _ _ w registered_start hr hw.1
    rw [hw.2] at hzero
    cases hzero

end Kumiko
