import Mathlib.Data.List.Basic

/-!
# The steps of a workflow pipeline

The walk over a step list of `engine/run-pipeline.ts` and the steps of `engine/steps` that hold other steps or
suspend; every other step runs once and may leave a result (`Step.plain`). Beside it stands the walk that
nothing interrupts (`throughList`): a wait is over at once, an awaited event is there, and a retry tries again
on the spot.
-/

namespace Kumiko.Workflows

variable {W Id V E : Type}

/-! ## What a step is shown and what it leaves -/

/-- The fields of the trigger that workflow steps read. Reference: `WriteEvent`. -/
structure WriteEvent (V : Type) where
  type : String
  payload : V

/-- Results under their keys, `none` where there is none. Reference: `stepsAcc`, `scopeAcc`. -/
abbrev Results (V : Type) := String → Option V

def Results.set (results : Results V) (key : String) (value : V) : Results V :=
  Function.update results key (some value)

/-- Reference: `PipelineCtx`. -/
structure PipelineCtx (V : Type) where
  event : WriteEvent V
  steps : Results V
  scope : Results V

/-- Reference: `AwaitedPayload`. -/
inductive AwaitedPayload (V : Type) where
  | unavailable
  | payload (value : V)

/-- What the arguments `Id` of a step stand for: its resolvers and its effect, given what the step is shown, the attempt
counter of the workflow context and a world of any kind that every call may change. -/
structure StepWorld (W Id V E : Type) where
  /-- The work of a plain step, or the arguments of a wait. -/
  value : Id → PipelineCtx V → Option ℕ → W → Except E V × W
  /-- Reference: `BranchArgs.if`. -/
  condition : Id → PipelineCtx V → Option ℕ → W → Except E Bool × W
  /-- Reference: `ForEachArgs.over`. -/
  items : Id → PipelineCtx V → Option ℕ → W → Except E (List V) × W
  /-- The payload of the trigger as the event store has it. Reference: `recoverTriggerEvent`. -/
  triggerPayload : W → Option V
  /-- The event that a wait has been given, or its timeout. Reference: `loadAwaitedPayload`. -/
  awaited : String → W → AwaitedPayload V × W

/-- Reference: `StepInstance`. -/
inductive Step (Id : Type) where
  /-- A step of any other kind, with its `resultKey`. -/
  | plain (args : Id) (resultKey : Option String)
  | wait (args : Id)
  | waitForEvent (args : Id) (event : String)
  | branch (args : Id) (onTrue onFalse : List (Step Id))
  | forEach (args : Id) (as : String) (body : List (Step Id))
  | retry (args : Id) (times : ℕ) (body : List (Step Id))

def Step.args : Step Id → Id
  | .plain args _ | .wait args | .waitForEvent args _ | .branch args _ _ | .forEach args _ _ | .retry args _ _ => args

/-- The key that ends a pipeline. -/
def RETURN_RESULT_KEY : String := "__return"

/-- Reference: `StepDef.resultKey`. -/
def Step.resultKey : Step Id → Option String
  | .plain _ key => key
  | .waitForEvent _ event => some event
  | _ => none

/-- Reference: `buildReturnStep`. -/
def buildReturnStep (args : Id) : Step Id := .plain args (some RETURN_RESULT_KEY)

/-- The event that a suspending step appends to the stream of the run. -/
inductive SuspensionCause where
  /-- Reference: `WORKFLOW_WAITING_TYPE`. -/
  | waiting
  /-- Reference: `WORKFLOW_WAITING_FOR_EVENT_TYPE`. -/
  | waitingForEvent (event : String)
  /-- Reference: `WORKFLOW_RETRY_SCHEDULED_TYPE`. -/
  | retryScheduled (attempt : ℕ)

structure SuspensionEvent where
  stepIndex : ℕ
  cause : SuspensionCause

/-- A step that was executed, and what it was shown. -/
structure Executed (Id V : Type) where
  args : Id
  shown : PipelineCtx V

/-- The accumulators of a pass and what it has done so far. -/
structure PassState (W Id V : Type) where
  world : W
  steps : Results V
  scope : Results V
  executed : List (Executed Id V)
  suspensions : List SuspensionEvent

/-- Why a step fails. -/
inductive StepFailure (E : Type) where
  | thrown (error : E)
  /-- A return inside `branch` or `forEach`. -/
  | returnNotAllowed
  | awaitedEventUnavailable

/-- Reference: `WorkflowStepError`. -/
structure WorkflowStepError (E : Type) where
  stepIndex : ℕ
  cause : StepFailure E

/-- What `StepDef.run` returns. -/
inductive StepOutcome (V : Type) where
  | undefined
  | value (value : V)
  /-- Reference: `SUSPEND_SENTINEL`. -/
  | suspend

/-- Reference: `StepListOutcome`; the result of a return is of no use to a workflow. -/
inductive StepListOutcome where
  | returned
  | suspended (stepIndex : ℕ)
  | exhausted

namespace PassState

def ctx (st : PassState W Id V) (event : WriteEvent V) : PipelineCtx V :=
  ⟨event, st.steps, st.scope⟩

def logged (st : PassState W Id V) (event : WriteEvent V) (args : Id) : PassState W Id V :=
  { st with executed := st.executed ++ [⟨args, st.ctx event⟩] }

def suspend (st : PassState W Id V) (suspension : SuspensionEvent) : PassState W Id V :=
  { st with suspensions := st.suspensions ++ [suspension] }

def store (st : PassState W Id V) (key : String) (value : V) : PassState W Id V :=
  { st with steps := st.steps.set key value }

def bind (st : PassState W Id V) (as : String) (item : Option V) : PassState W Id V :=
  { st with scope := Function.update st.scope as item }

end PassState

/-- The execution of a step starts with its arguments. Reference: `resolveRequired`. -/
def resolve {α : Type} (resolver : Id → PipelineCtx V → Option ℕ → W → Except E α × W)
    (event : WriteEvent V) (args : Id) (attempt : Option ℕ) (st : PassState W Id V) :
    Except (StepFailure E) α × PassState W Id V :=
  match resolver args (st.ctx event) attempt st.world with
  | (.ok value, world) => (.ok value, { st.logged event args with world := world })
  | (.error error, world) => (.error (.thrown error), { st.logged event args with world := world })

/-- What is left of the state when the arguments have been resolved, or have failed to. -/
theorem state_of_resolve {α : Type} {resolver : Id → PipelineCtx V → Option ℕ → W → Except E α × W}
    {event : WriteEvent V} {args : Id} {attempt : Option ℕ} {st st' : PassState W Id V}
    {outcome : Except (StepFailure E) α}
    (h : resolve resolver event args attempt st = (outcome, st')) :
    ∃ w, st' = { st.logged event args with world := w } := by
  unfold resolve at h
  rcases hres : resolver args (st.ctx event) attempt st.world with ⟨error | value, w⟩ <;>
    simp only [hres, Prod.mk.injEq] at h
  · exact ⟨w, h.2.symm⟩
  · exact ⟨w, h.2.symm⟩

/-! ## One pass -/

/-- The loop of `forEach`. -/
def forEachItem (as : String)
    (walk : PassState W Id V → Except (WorkflowStepError E) StepListOutcome × PassState W Id V) :
    List V → PassState W Id V → Except (StepFailure E) (StepOutcome V) × PassState W Id V
  | [], st => (.ok .undefined, st)
  | item :: items, st =>
    match walk (st.bind as (some item)) with
    | (.error error, st) => (.error error.cause, st)
    | (.ok .returned, st) => (.error .returnNotAllowed, st)
    | (.ok (.suspended _), st) => (.ok .suspend, st)
    | (.ok .exhausted, st) => forEachItem as walk items st

/-- What `branch` makes of the outcome of its steps. -/
def branchOutcome (outcome : Except (WorkflowStepError E) StepListOutcome × PassState W Id V) :
    Except (StepFailure E) (StepOutcome V) × PassState W Id V :=
  match outcome with
  | (.error error, st) => (.error error.cause, st)
  | (.ok .returned, st) => (.error .returnNotAllowed, st)
  | (.ok (.suspended _), st) => (.ok .suspend, st)
  | (.ok .exhausted, st) => (.ok .undefined, st)

/-- The rest of the loop once a step has run, where `continues` are the steps that follow. -/
def afterStep (step : Step Id) (i : ℕ)
    (continues : PassState W Id V → Except (WorkflowStepError E) StepListOutcome × PassState W Id V)
    (outcome : Except (StepFailure E) (StepOutcome V) × PassState W Id V) :
    Except (WorkflowStepError E) StepListOutcome × PassState W Id V :=
  match outcome with
  | (.error cause, st) => (.error ⟨i, cause⟩, st)
  | (.ok .suspend, st) => (.ok (.suspended i), st)
  | (.ok .undefined, st) => continues st
  | (.ok (.value value), st) =>
    match step.resultKey with
    | none => continues st
    | some key => if key = RETURN_RESULT_KEY then (.ok .returned, st) else continues (st.store key value)

mutual

/-- `attempt` is the `retryAttempt` of the workflow context, `i` its `stepIndex`. Reference: `StepDef.run`. -/
def runStep (world : StepWorld W Id V E) (event : WriteEvent V) :
    Step Id → Option ℕ → ℕ → PassState W Id V →
      Except (StepFailure E) (StepOutcome V) × PassState W Id V
  | .plain args _, attempt, _, st =>
    match resolve world.value event args attempt st with
    | (.error error, st) => (.error error, st)
    | (.ok value, st) => (.ok (.value value), st)
  | .wait args, attempt, i, st =>
    match resolve world.value event args attempt st with
    | (.error error, st) => (.error error, st)
    | (.ok _, st) => (.ok .suspend, st.suspend ⟨i, .waiting⟩)
  | .waitForEvent args awaited, attempt, i, st =>
    match resolve world.value event args attempt st with
    | (.error error, st) => (.error error, st)
    | (.ok _, st) => (.ok .suspend, st.suspend ⟨i, .waitingForEvent awaited⟩)
  | .branch args onTrue onFalse, attempt, _, st =>
    match resolve world.condition event args attempt st with
    | (.error error, st) => (.error error, st)
    | (.ok true, st) => branchOutcome (runStepList world event onTrue attempt 0 0 st)
    | (.ok false, st) => branchOutcome (runStepList world event onFalse attempt 0 0 st)
  | .forEach args as body, attempt, _, st =>
    match resolve world.items event args attempt st with
    | (.error error, st) => (.error error, st)
    | (.ok items, st) =>
      match forEachItem as (fun st => runStepList world event body attempt 0 0 st) items st with
      | (outcome, st') => (outcome, st'.bind as (st.scope as))
  | .retry args times body, attempt, i, st =>
    match runStepList world event body attempt 0 0 (st.logged event args) with
    | (.ok _, st) => (.ok .undefined, st)
    | (.error error, st) =>
      if times ≤ attempt.getD 1 then (.error error.cause, st)
      else (.ok .suspend, st.suspend ⟨i, .retryScheduled (attempt.getD 1)⟩)

/-- The steps from index `i` on; those before `resumeFrom` are skipped. -/
def runStepList (world : StepWorld W Id V E) (event : WriteEvent V) :
    List (Step Id) → Option ℕ → ℕ → ℕ → PassState W Id V →
      Except (WorkflowStepError E) StepListOutcome × PassState W Id V
  | [], _, _, _, st => (.ok .exhausted, st)
  | step :: steps, attempt, resumeFrom, i, st =>
    if i < resumeFrom then runStepList world event steps attempt resumeFrom (i + 1) st
    else
      afterStep step i (fun st => runStepList world event steps attempt resumeFrom (i + 1) st)
        (runStep world event step attempt i st)

end

/-! ## The walk that nothing interrupts -/

/-- The attempt counter that a step of the attempt is shown; the first attempt has none. -/
def shownAttempt (attempt : ℕ) : Option ℕ := if attempt ≤ 1 then none else some attempt

/-- Attempts of a retry one after the other, `left` of them after this one. -/
def throughAttempts (event : WriteEvent V) (args : Id)
    (walk : Option ℕ → PassState W Id V →
      Except (WorkflowStepError E) StepListOutcome × PassState W Id V) :
    ℕ → ℕ → PassState W Id V → Except (StepFailure E) (StepOutcome V) × PassState W Id V
  | left, attempt, st =>
    match walk (shownAttempt attempt) (st.logged event args) with
    | (.ok _, st) => (.ok .undefined, st)
    | (.error error, st) =>
      match left with
      | 0 => (.error error.cause, st)
      | left + 1 => throughAttempts event args walk left (attempt + 1) st

/-- The payload of an awaited event is the result of its step. -/
def throughAwaited (world : StepWorld W Id V E) (awaited : String) (st : PassState W Id V) :
    Except (StepFailure E) (StepOutcome V) × PassState W Id V :=
  match world.awaited awaited st.world with
  | (.payload value, w) => (.ok .undefined, ({ st with world := w }).store awaited value)
  | (.unavailable, w) => (.error .awaitedEventUnavailable, { st with world := w })

mutual

/-- A step where waits return at once. -/
def throughStep (world : StepWorld W Id V E) (event : WriteEvent V) :
    Step Id → Option ℕ → PassState W Id V →
      Except (StepFailure E) (StepOutcome V) × PassState W Id V
  | .plain args _, attempt, st =>
    match resolve world.value event args attempt st with
    | (.error error, st) => (.error error, st)
    | (.ok value, st) => (.ok (.value value), st)
  | .wait args, attempt, st =>
    match resolve world.value event args attempt st with
    | (.error error, st) => (.error error, st)
    | (.ok _, st) => (.ok .undefined, st)
  | .waitForEvent args awaited, attempt, st =>
    match resolve world.value event args attempt st with
    | (.error error, st) => (.error error, st)
    | (.ok _, st) => throughAwaited world awaited st
  | .branch args onTrue onFalse, attempt, st =>
    match resolve world.condition event args attempt st with
    | (.error error, st) => (.error error, st)
    | (.ok true, st) => branchOutcome (throughList world event onTrue attempt 0 st)
    | (.ok false, st) => branchOutcome (throughList world event onFalse attempt 0 st)
  | .forEach args as body, attempt, st =>
    match resolve world.items event args attempt st with
    | (.error error, st) => (.error error, st)
    | (.ok items, st) =>
      match forEachItem as (fun st => throughList world event body attempt 0 st) items st with
      | (outcome, st') => (outcome, st'.bind as (st.scope as))
  | .retry args times body, _, st =>
    throughAttempts event args (fun attempt st => throughList world event body attempt 0 st)
      (times - 1) 1 st

/-- The steps from index `i` on where waits return at once. -/
def throughList (world : StepWorld W Id V E) (event : WriteEvent V) :
    List (Step Id) → Option ℕ → ℕ → PassState W Id V →
      Except (WorkflowStepError E) StepListOutcome × PassState W Id V
  | [], _, _, st => (.ok .exhausted, st)
  | step :: steps, attempt, i, st =>
    afterStep step i (fun st => throughList world event steps attempt (i + 1) st)
      (throughStep world event step attempt st)

end

/-! ## Steps that hold no suspension -/

mutual

/-- The step or a step inside it may suspend. -/
def Step.suspends : Step Id → Bool
  | .plain _ _ => false
  | .wait _ | .waitForEvent _ _ | .retry _ _ _ => true
  | .branch _ onTrue onFalse => listSuspends onTrue || listSuspends onFalse
  | .forEach _ _ body => listSuspends body

def listSuspends : List (Step Id) → Bool
  | [] => false
  | step :: steps => step.suspends || listSuspends steps

end

/-- The outcome is no suspension. -/
def Settles (outcome : Except (WorkflowStepError E) StepListOutcome × PassState W Id V) : Prop :=
  ∀ i st, outcome ≠ (.ok (.suspended i), st)

theorem forEachItem_ne_suspend {as : String}
    {walk : PassState W Id V → Except (WorkflowStepError E) StepListOutcome × PassState W Id V}
    (h : ∀ st, Settles (walk st)) (items : List V) (st st' : PassState W Id V) :
    forEachItem as walk items st ≠ (.ok .suspend, st') := by
  induction items generalizing st with
  | nil => exact fun h => by cases h
  | cons item items ih =>
    intro hwalk
    unfold forEachItem at hwalk
    rcases hw : walk (st.bind as (some item)) with ⟨error | _ | i | _, st₁⟩ <;>
      simp only [hw] at hwalk
    · cases hwalk
    · cases hwalk
    · exact h _ i st₁ hw
    · exact ih _ hwalk

theorem branchOutcome_ne_suspend
    {outcome : Except (WorkflowStepError E) StepListOutcome × PassState W Id V}
    (h : Settles outcome) (st : PassState W Id V) : branchOutcome outcome ≠ (.ok .suspend, st) := by
  rcases outcome with ⟨error | _ | i | _, st₁⟩
  · exact fun h => by cases h
  · exact fun h => by cases h
  · exact absurd rfl (h i st₁)
  · exact fun h => by cases h

mutual

/-- A step that holds no suspension runs alike in a pass and in the walk that nothing interrupts. -/
theorem runStep_of_synchronous (world : StepWorld W Id V E) (event : WriteEvent V) :
    ∀ (step : Step Id) (attempt : Option ℕ) (i : ℕ) (st : PassState W Id V),
      step.suspends = false →
      runStep world event step attempt i st = throughStep world event step attempt st ∧
        ∀ st', runStep world event step attempt i st ≠ (.ok .suspend, st')
  | .plain args _, attempt, i, st, _ => by
    refine ⟨by rw [runStep, throughStep], fun st' => ?_⟩
    rw [runStep]
    rcases resolve world.value event args attempt st with ⟨_ | _, st₁⟩ <;> exact fun h => by cases h
  | .branch args onTrue onFalse, attempt, i, st, h => by
    rw [Step.suspends, Bool.or_eq_false_iff] at h
    rw [runStep, throughStep]
    rcases resolve world.condition event args attempt st with ⟨_ | condition, st₁⟩
    · exact ⟨rfl, fun _ h => by cases h⟩
    · cases condition with
      | true =>
        obtain ⟨heq, hs⟩ := runStepList_of_synchronous world event onTrue attempt 0 st₁ h.1
        exact ⟨congrArg branchOutcome heq, fun st' => branchOutcome_ne_suspend hs st'⟩
      | false =>
        obtain ⟨heq, hs⟩ := runStepList_of_synchronous world event onFalse attempt 0 st₁ h.2
        exact ⟨congrArg branchOutcome heq, fun st' => branchOutcome_ne_suspend hs st'⟩
  | .forEach args as body, attempt, i, st, h => by
    rw [Step.suspends] at h
    have hbody := fun st => runStepList_of_synchronous world event body attempt 0 st h
    rw [runStep, throughStep]
    rcases resolve world.items event args attempt st with ⟨_ | items, st₁⟩
    · exact ⟨rfl, fun _ h => by cases h⟩
    · have hwalk : (fun st => runStepList world event body attempt 0 0 st) =
          fun st => throughList world event body attempt 0 st := funext fun st => (hbody st).1
      refine ⟨by simp only [hwalk], fun st' hsuspend => ?_⟩
      rcases hloop : forEachItem as (fun st => runStepList world event body attempt 0 0 st) items st₁
        with ⟨outcome, st₂⟩
      simp only [hloop, Prod.mk.injEq] at hsuspend
      have hne : forEachItem as (fun st => runStepList world event body attempt 0 0 st) items st₁ ≠
          (.ok .suspend, st₂) := forEachItem_ne_suspend (fun st => (hbody st).2) items st₁ st₂
      exact hne (by rw [hloop, hsuspend.1])

/-- A list that holds no suspension is walked as if nothing could interrupt it. -/
theorem runStepList_of_synchronous (world : StepWorld W Id V E) (event : WriteEvent V) :
    ∀ (steps : List (Step Id)) (attempt : Option ℕ) (i : ℕ) (st : PassState W Id V),
      listSuspends steps = false →
      runStepList world event steps attempt 0 i st = throughList world event steps attempt i st ∧
        Settles (runStepList world event steps attempt 0 i st)
  | [], _, _, _, _ => ⟨by rw [runStepList, throughList], fun _ _ h => by rw [runStepList] at h; cases h⟩
  | step :: steps, attempt, i, st, h => by
    rw [listSuspends, Bool.or_eq_false_iff] at h
    obtain ⟨heq, hs⟩ := runStep_of_synchronous world event step attempt i st h.1
    have hrest := fun st => runStepList_of_synchronous world event steps attempt (i + 1) st h.2
    have hwalk : (fun st => runStepList world event steps attempt 0 (i + 1) st) =
        fun st => throughList world event steps attempt (i + 1) st := funext fun st => (hrest st).1
    rw [runStepList, throughList, if_neg (Nat.not_lt_zero i), ← heq, hwalk]
    refine ⟨rfl, fun j st' hj => ?_⟩
    rcases hout : runStep world event step attempt i st with ⟨cause | _ | value | _, st₁⟩
    · rw [hout] at hj; cases hj
    · rw [hout] at hj
      exact (hrest st₁).2 j st' ((hrest st₁).1.trans hj)
    · rw [hout] at hj
      simp only [afterStep] at hj
      split at hj
      · exact (hrest _).2 j st' ((hrest _).1.trans hj)
      · split at hj
        · cases hj
        · exact (hrest _).2 j st' ((hrest _).1.trans hj)
    · exact hs st₁ hout

end

/-! ## What every walk keeps -/

/-- A relation between the states before and after that holds across what single steps do to the state. -/
structure Kept (R : PassState W Id V → PassState W Id V → Prop) : Prop where
  refl : ∀ st, R st st
  trans : ∀ {st₁ st₂ st₃}, R st₁ st₂ → R st₂ st₃ → R st₁ st₃
  logged : ∀ st event args, R st (st.logged event args)
  world : ∀ st w, R st { st with world := w }
  store : ∀ st key value, R st (st.store key value)
  bind : ∀ {st st'} as item, R st st' → R (st.bind as item) (st'.bind as item)

section Kept

variable {R : PassState W Id V → PassState W Id V → Prop}

/-- Resolving arguments keeps what holds of a pass. -/
theorem kept_resolve (hR : Kept R) {α : Type}
    {resolver : Id → PipelineCtx V → Option ℕ → W → Except E α × W} {event : WriteEvent V}
    {args : Id} {attempt : Option ℕ} {st st' : PassState W Id V} {outcome : Except (StepFailure E) α}
    (h : resolve resolver event args attempt st = (outcome, st')) : R (st.logged event args) st' := by
  obtain ⟨w, rfl⟩ := state_of_resolve h
  exact hR.world _ w

/-- The loop keeps the relation outside the name that it binds. -/
theorem kept_forEachItem (hR : Kept R) {as : String}
    {walk : PassState W Id V → Except (WorkflowStepError E) StepListOutcome × PassState W Id V}
    (h : ∀ st, R st (walk st).2) (items : List V) (v : Option V) (st : PassState W Id V) :
    R (st.bind as v) ((forEachItem as walk items st).2.bind as v) := by
  induction items generalizing st with
  | nil => exact hR.refl _
  | cons item items ih =>
    have hitem : R (st.bind as v) ((walk (st.bind as (some item))).2.bind as v) := by
      have hbind := hR.bind as v (h (st.bind as (some item)))
      rwa [show (st.bind as (some item)).bind as v = st.bind as v by
        simp only [PassState.bind, Function.update_idem]] at hbind
    unfold forEachItem
    rcases hw : walk (st.bind as (some item)) with ⟨error | _ | i | _, st₁⟩ <;> rw [hw] at hitem
    · exact hitem
    · exact hitem
    · exact hitem
    · exact hR.trans hitem (ih st₁)

theorem kept_forEach (hR : Kept R) {as : String}
    {walk : PassState W Id V → Except (WorkflowStepError E) StepListOutcome × PassState W Id V}
    (h : ∀ st, R st (walk st).2) (items : List V) (st : PassState W Id V) :
    R st ((forEachItem as walk items st).2.bind as (st.scope as)) := by
  have hloop : R (st.bind as (st.scope as)) ((forEachItem as walk items st).2.bind as (st.scope as)) :=
    kept_forEachItem hR h items (st.scope as) st
  rwa [show st.bind as (st.scope as) = st by
    simp only [PassState.bind, Function.update_eq_self]] at hloop

theorem kept_branchOutcome {st : PassState W Id V}
    {outcome : Except (WorkflowStepError E) StepListOutcome × PassState W Id V} (h : R st outcome.2) :
    R st (branchOutcome outcome).2 := by
  rcases outcome with ⟨error | _ | i | _, st₁⟩ <;> exact h

theorem kept_afterStep (hR : Kept R) {step : Step Id} {i : ℕ} {st : PassState W Id V}
    {continues : PassState W Id V → Except (WorkflowStepError E) StepListOutcome × PassState W Id V}
    {outcome : Except (StepFailure E) (StepOutcome V) × PassState W Id V}
    (hrest : ∀ st, R st (continues st).2) (h : R st outcome.2) :
    R st (afterStep step i continues outcome).2 := by
  rcases outcome with ⟨cause | _ | value | _, st₁⟩
  · exact h
  · exact hR.trans h (hrest st₁)
  · simp only [afterStep]
    cases step.resultKey with
    | none => exact hR.trans h (hrest st₁)
    | some key =>
      by_cases hkey : key = RETURN_RESULT_KEY
      · simp only [if_pos hkey]; exact h
      · simp only [if_neg hkey]
        exact hR.trans (hR.trans h (hR.store st₁ key value)) (hrest _)
  · exact h

/-- So do attempts that follow each other. -/
theorem kept_throughAttempts (hR : Kept R) {event : WriteEvent V} {args : Id}
    {walk : Option ℕ → PassState W Id V →
      Except (WorkflowStepError E) StepListOutcome × PassState W Id V}
    (h : ∀ attempt st, R st (walk attempt st).2) (left attempt : ℕ) (st : PassState W Id V) :
    R (st.logged event args) (throughAttempts event args walk left attempt st).2 := by
  induction left generalizing attempt st with
  | zero =>
    have hwalk := h (shownAttempt attempt) (st.logged event args)
    unfold throughAttempts
    rcases hw : walk (shownAttempt attempt) (st.logged event args) with ⟨_ | _, st₁⟩ <;>
      rw [hw] at hwalk <;> exact hwalk
  | succ left ih =>
    have hwalk := h (shownAttempt attempt) (st.logged event args)
    unfold throughAttempts
    rcases hw : walk (shownAttempt attempt) (st.logged event args) with ⟨_ | _, st₁⟩ <;>
      rw [hw] at hwalk
    · exact hR.trans hwalk (hR.trans (hR.logged st₁ event args) (ih (attempt + 1) st₁))
    · exact hwalk

theorem kept_throughAwaited (hR : Kept R) (world : StepWorld W Id V E) (awaited : String)
    (st : PassState W Id V) : R st (throughAwaited world awaited st).2 := by
  unfold throughAwaited
  rcases world.awaited awaited st.world with ⟨_ | value, w⟩
  · exact hR.world st w
  · exact hR.trans (hR.world st w) (hR.store _ awaited value)

mutual

/-- By induction on the step and the lists it holds. -/
theorem kept_throughStep (hR : Kept R) (world : StepWorld W Id V E) (event : WriteEvent V) :
    ∀ (step : Step Id) (attempt : Option ℕ) (st : PassState W Id V),
      R (st.logged event step.args) (throughStep world event step attempt st).2
  | .plain args _, attempt, st => by
    rw [throughStep]
    rcases hres : resolve world.value event args attempt st with ⟨_ | _, st₁⟩ <;> exact kept_resolve hR hres
  | .wait args, attempt, st => by
    rw [throughStep]
    rcases hres : resolve world.value event args attempt st with ⟨_ | _, st₁⟩ <;> exact kept_resolve hR hres
  | .waitForEvent args awaited, attempt, st => by
    rw [throughStep]
    rcases hr : resolve world.value event args attempt st with ⟨_ | _, st₁⟩ <;>
      have hres := kept_resolve hR hr
    · exact hres
    · exact hR.trans hres (kept_throughAwaited hR world awaited st₁)
  | .branch args onTrue onFalse, attempt, st => by
    rw [throughStep]
    rcases hr : resolve world.condition event args attempt st with ⟨_ | condition, st₁⟩ <;>
      have hres := kept_resolve hR hr
    · exact hres
    · cases condition with
      | true => exact hR.trans hres (kept_branchOutcome (kept_throughList hR world event onTrue attempt 0 st₁))
      | false => exact hR.trans hres (kept_branchOutcome (kept_throughList hR world event onFalse attempt 0 st₁))
  | .forEach args as body, attempt, st => by
    rw [throughStep]
    rcases hr : resolve world.items event args attempt st with ⟨_ | items, st₁⟩ <;>
      have hres := kept_resolve hR hr
    · exact hres
    · exact hR.trans hres
        (kept_forEach hR (fun st => kept_throughList hR world event body attempt 0 st) items st₁)
  | .retry args times body, attempt, st => by
    rw [throughStep]
    exact kept_throughAttempts hR (fun attempt st => kept_throughList hR world event body attempt 0 st) _ _ st

theorem kept_throughList (hR : Kept R) (world : StepWorld W Id V E) (event : WriteEvent V) :
    ∀ (steps : List (Step Id)) (attempt : Option ℕ) (i : ℕ) (st : PassState W Id V),
      R st (throughList world event steps attempt i st).2
  | [], attempt, i, st => by rw [throughList]; exact hR.refl st
  | step :: steps, attempt, i, st => by
    rw [throughList]
    exact kept_afterStep hR (fun st => kept_throughList hR world event steps attempt (i + 1) st)
      (hR.trans (hR.logged st event step.args) (kept_throughStep hR world event step attempt st))

end

mutual

/-- A pass keeps what its steps and its suspensions keep. -/
theorem kept_runStep (hR : Kept R) (hs : ∀ st suspension, R st (st.suspend suspension))
    (world : StepWorld W Id V E) (event : WriteEvent V) :
    ∀ (step : Step Id) (attempt : Option ℕ) (i : ℕ) (st : PassState W Id V),
      R (st.logged event step.args) (runStep world event step attempt i st).2
  | .plain args _, attempt, i, st => by
    rw [runStep]
    rcases hres : resolve world.value event args attempt st with ⟨_ | _, st₁⟩ <;> exact kept_resolve hR hres
  | .wait args, attempt, i, st => by
    rw [runStep]
    rcases hr : resolve world.value event args attempt st with ⟨_ | _, st₁⟩ <;>
      have hres := kept_resolve hR hr
    · exact hres
    · exact hR.trans hres (hs st₁ _)
  | .waitForEvent args awaited, attempt, i, st => by
    rw [runStep]
    rcases hr : resolve world.value event args attempt st with ⟨_ | _, st₁⟩ <;>
      have hres := kept_resolve hR hr
    · exact hres
    · exact hR.trans hres (hs st₁ _)
  | .branch args onTrue onFalse, attempt, i, st => by
    rw [runStep]
    rcases hr : resolve world.condition event args attempt st with ⟨_ | condition, st₁⟩ <;>
      have hres := kept_resolve hR hr
    · exact hres
    · cases condition with
      | true => exact hR.trans hres (kept_branchOutcome (kept_runStepList hR hs world event onTrue attempt 0 0 st₁))
      | false => exact hR.trans hres (kept_branchOutcome (kept_runStepList hR hs world event onFalse attempt 0 0 st₁))
  | .forEach args as body, attempt, i, st => by
    rw [runStep]
    rcases hr : resolve world.items event args attempt st with ⟨_ | items, st₁⟩ <;>
      have hres := kept_resolve hR hr
    · exact hres
    · exact hR.trans hres
        (kept_forEach hR (fun st => kept_runStepList hR hs world event body attempt 0 0 st) items st₁)
  | .retry args times body, attempt, i, st => by
    have hbody := kept_runStepList hR hs world event body attempt 0 0 (st.logged event args)
    rw [runStep]
    rcases hw : runStepList world event body attempt 0 0 (st.logged event args) with ⟨error | _, st₁⟩ <;>
      rw [hw] at hbody
    · by_cases htimes : times ≤ attempt.getD 1
      · simp only [if_pos htimes]
        exact hbody
      · simp only [if_neg htimes]
        exact hR.trans hbody (hs st₁ _)
    · exact hbody

theorem kept_runStepList (hR : Kept R) (hs : ∀ st suspension, R st (st.suspend suspension))
    (world : StepWorld W Id V E) (event : WriteEvent V) :
    ∀ (steps : List (Step Id)) (attempt : Option ℕ) (resumeFrom i : ℕ) (st : PassState W Id V),
      R st (runStepList world event steps attempt resumeFrom i st).2
  | [], attempt, resumeFrom, i, st => by rw [runStepList]; exact hR.refl st
  | step :: steps, attempt, resumeFrom, i, st => by
    rw [runStepList]
    by_cases hi : i < resumeFrom
    · rw [if_pos hi]
      exact kept_runStepList hR hs world event steps attempt resumeFrom (i + 1) st
    · rw [if_neg hi]
      exact kept_afterStep hR
        (fun st => kept_runStepList hR hs world event steps attempt resumeFrom (i + 1) st)
        (hR.trans (hR.logged st event step.args) (kept_runStep hR hs world event step attempt i st))

end

/-- A walk starts with the first of its steps. -/
theorem kept_throughList_cons (hR : Kept R) (world : StepWorld W Id V E) (event : WriteEvent V)
    (step : Step Id) (steps : List (Step Id)) (attempt : Option ℕ) (i : ℕ) (st : PassState W Id V) :
    R (st.logged event step.args) (throughList world event (step :: steps) attempt i st).2 := by
  rw [throughList]
  exact kept_afterStep hR (fun st => kept_throughList hR world event steps attempt (i + 1) st)
    (kept_throughStep hR world event step attempt st)

/-- A pass starts with the first of its steps. -/
theorem kept_runStepList_cons (hR : Kept R) (hs : ∀ st suspension, R st (st.suspend suspension))
    (world : StepWorld W Id V E) (event : WriteEvent V) (step : Step Id) (steps : List (Step Id))
    (attempt : Option ℕ) (i : ℕ) (st : PassState W Id V) :
    R (st.logged event step.args) (runStepList world event (step :: steps) attempt 0 i st).2 := by
  rw [runStepList, if_neg (Nat.not_lt_zero i)]
  exact kept_afterStep hR (fun st => kept_runStepList hR hs world event steps attempt 0 (i + 1) st)
    (kept_runStep hR hs world event step attempt i st)

end Kept

end Kumiko.Workflows
