import Kumiko.Library.Run
import Kumiko.Workflow.PipelineSteps

/-!
# A run that is suspended and resumed

`workflow-runner/runner.ts` and `handlers/resume-run.write.ts`: the first pass over a pipeline, and a pass for
every resume, which knows the trigger, the step to go on with and the event that was awaited. The passes come to
what the uninterrupted walk does where every resume starts with the results that the suspended pass ended with
(`Recovers`, `transparent_of_runs`); the results before a wait are gone after it (`forgotten_result`).
-/

namespace Kumiko.Workflows

open Transition

variable {W Id V E : Type} {step : Step Id} {st : PassState W Id V} {cause : SuspensionCause}
  {world : StepWorld W Id V E} {pipeline before after : List (Step Id)}
  {ran through : Except (WorkflowStepError E) StepListOutcome × PassState W Id V}

/-! ## The run -/

/-- Why a run has failed. -/
inductive RunFailure (E : Type) where
  | step (cause : StepFailure E)
  | triggerEventUnavailable
  /-- Reference: `WorkflowSuspensionUnsupportedError`. -/
  | suspensionUnsupported

/-- Reference: `WorkflowRunCompletedPayload`, `WorkflowRunFailedPayload`. -/
inductive RunResult (E : Type) where
  | completed
  | failed (stepIndex : ℕ) (reason : RunFailure E)

/-- Reference: `retryAttempt` of a pending row. -/
def SuspensionCause.retryAttempt : SuspensionCause → Option ℕ
  | .retryScheduled attempt => some attempt
  | _ => none

/-- Reference: `resumeFrom` in `resume-run.write.ts`. -/
def SuspensionEvent.resumeFrom (row : SuspensionEvent) : ℕ :=
  match row.cause with
  | .retryScheduled _ => row.stepIndex
  | _ => row.stepIndex + 1

/-- The kinds of `RESUMABLE_STEP_KINDS`. -/
def Step.isResumable : Step Id → Bool
  | .wait _ | .waitForEvent _ _ | .retry _ _ _ => true
  | _ => false

/-- Reference: `isResumableSuspension`. -/
def isResumableSuspension (steps : List (Step Id)) (stepIndex : ℕ) : Bool :=
  steps[stepIndex]?.any Step.isResumable

/-- Reference: `upsertPending`. -/
def upsertPending (rows : List SuspensionEvent) (row : SuspensionEvent) : List SuspensionEvent :=
  rows.filter (fun row' => row'.stepIndex != row.stepIndex) ++ [row]

/-- A run between two passes. -/
structure WorkflowRun (W Id V E : Type) where
  /-- Reference: `workflowRunPendingTable`. -/
  pending : List SuspensionEvent
  /-- The state that the last pass ended in. -/
  last : PassState W Id V
  /-- What the resumed events of the run say. -/
  resumed : List (ℕ × Option ℕ)
  settled : Option (RunResult E)

/-- No results. -/
def noResults : Results V := fun _ => none

/-- The end of a pass. Reference: `startAndRunWorkflow`, `runResumedPipeline`. -/
def endPass (pipeline : List (Step Id)) (resumed : List (ℕ × Option ℕ))
    (outcome : Except (WorkflowStepError E) StepListOutcome × PassState W Id V) :
    WorkflowRun W Id V E :=
  match outcome with
  | (.error error, st) => ⟨[], st, resumed, some (.failed error.stepIndex (.step error.cause))⟩
  | (.ok (.suspended i), st) =>
    if isResumableSuspension pipeline i then ⟨st.suspensions.foldl upsertPending [], st, resumed, none⟩
    else ⟨[], st, resumed, some (.failed i .suspensionUnsupported)⟩
  | (.ok _, st) => ⟨[], st, resumed, some .completed⟩

/-- Reference: `startAndRunWorkflow`. -/
def startAndRunWorkflow (world : StepWorld W Id V E) (event : WriteEvent V)
    (pipeline : List (Step Id)) (w : W) : WorkflowRun W Id V E :=
  endPass pipeline [] (runStepList world event pipeline none 0 0 ⟨w, noResults, noResults, [], []⟩)

/-- The payload of the event that the row has been given, `undefined` where none is awaited. Reference: `awaited` in
`resume-run.write.ts`. -/
def awaitedPayload (world : StepWorld W Id V E) (cause : SuspensionCause) (w : W) :
    AwaitedPayload (Option V) × W :=
  match cause with
  | .waitingForEvent awaited =>
    match world.awaited awaited w with
    | (.payload value, w) => (.payload (some value), w)
    | (.unavailable, w) => (.unavailable, w)
  | _ => (.payload none, w)

/-- Reference: `seedResumedStepResults`. -/
def seedResumedStepResults (pipeline : List (Step Id)) (row : SuspensionEvent) (payload : Option V) :
    Results V :=
  match payload, (pipeline[row.stepIndex]?).bind Step.resultKey with
  | some value, some key => noResults.set key value
  | _, _ => noResults

/-- The pass of a resume whose claim has been won. Reference: `resumeRunHandler`. -/
def resumeRow (world : StepWorld W Id V E) (event : WriteEvent V) (pipeline : List (Step Id))
    (run : WorkflowRun W Id V E) (row : SuspensionEvent) : WorkflowRun W Id V E :=
  let resumed := (row.stepIndex, row.cause.retryAttempt) :: run.resumed
  match world.triggerPayload run.last.world with
  | none => ⟨[], run.last, resumed, some (.failed row.stepIndex .triggerEventUnavailable)⟩
  | some payload =>
    match awaitedPayload world row.cause run.last.world with
    | (.unavailable, w) =>
      ⟨[], { run.last with world := w }, resumed,
        some (.failed row.stepIndex (.step .awaitedEventUnavailable))⟩
    | (.payload value, w) =>
      endPass pipeline resumed
        (runStepList world ⟨event.type, payload⟩ pipeline (row.cause.retryAttempt.map (· + 1))
          row.resumeFrom 0
          ⟨w, seedResumedStepResults pipeline row value, noResults, run.last.executed, []⟩)

/-- The resume of the row with this index; a claim that the run has seen is left alone. Reference: `resumeRunHandler`,
`isRunAlreadySettled`. -/
def resumeRun (world : StepWorld W Id V E) (event : WriteEvent V) (pipeline : List (Step Id))
    (run : WorkflowRun W Id V E) (stepIndex : ℕ) : Option (WorkflowRun W Id V E) :=
  match run.settled, run.pending.find? (fun row => row.stepIndex == stepIndex) with
  | none, some row =>
    if (row.stepIndex, row.cause.retryAttempt) ∈ run.resumed then none
    else some (resumeRow world event pipeline run row)
  | _, _ => none

/-! ## The run that nothing interrupts -/

/-- The result of a walk that does not suspend, with the steps that it has executed. -/
def finalRun (outcome : Except (WorkflowStepError E) StepListOutcome × PassState W Id V) :
    RunResult E × List (Executed Id V) :=
  match outcome with
  | (.error error, st) => (.failed error.stepIndex (.step error.cause), st.executed)
  | (.ok _, st) => (.completed, st.executed)

/-- What the run comes to where waits return at once. -/
def uninterruptedRun (world : StepWorld W Id V E) (event : WriteEvent V) (pipeline : List (Step Id))
    (w : W) : RunResult E × List (Executed Id V) :=
  finalRun (throughList world event pipeline none 0 ⟨w, noResults, noResults, [], []⟩)

/-- The run has ended as the run that nothing interrupts, and has executed the same steps, each shown the same. -/
def Transparent (world : StepWorld W Id V E) (event : WriteEvent V) (pipeline : List (Step Id))
    (w : W) (run : WorkflowRun W Id V E) : Prop :=
  ∃ result, run.settled = some result ∧
    (result, run.last.executed) = uninterruptedRun world event pipeline w

/-- The results that the steps after a suspension should find. -/
def keptResults (cause : SuspensionCause) (payload : Option V) (results : Results V) : Results V :=
  match cause, payload with
  | .waitingForEvent awaited, some value => results.set awaited value
  | _, _ => results

/-- The resume finds the trigger as it was, and starts with what the suspended pass ended with; where no step is left it
is enough that the trigger is there. -/
def Recovers (world : StepWorld W Id V E) (event : WriteEvent V) (pipeline : List (Step Id))
    (run : WorkflowRun W Id V E) (stepIndex : ℕ) : Prop :=
  ∀ row, run.pending.find? (fun row => row.stepIndex == stepIndex) = some row →
    ∃ payload, world.triggerPayload run.last.world = some payload ∧
      ∀ value w, awaitedPayload world row.cause run.last.world = (.payload value, w) →
        row.resumeFrom < pipeline.length →
          payload = event.payload ∧
          seedResumedStepResults pipeline row value = keptResults row.cause value run.last.steps

/-! ## One step of the pipeline -/

/-- Only a `wait`, a `waitForEvent` or a `retry` at the top level suspends. -/
def Step.TopLevel : Step Id → Prop
  | .wait _ | .waitForEvent _ _ => True
  | .retry _ _ body => listSuspends body = false
  | step => step.suspends = false

/-- The step has suspended with this event. -/
def Step.Suspended : Step Id → SuspensionCause → Prop
  | .wait _, .waiting => True
  | .waitForEvent _ event, .waitingForEvent event' => event = event'
  | .retry _ times _, .retryScheduled attempt => 1 ≤ attempt ∧ attempt < times
  | _, _ => False

/-- What is left of a suspended step in the walk that nothing interrupts. -/
def throughSuspended (world : StepWorld W Id V E) (event : WriteEvent V) (step : Step Id)
    (cause : SuspensionCause) (st : PassState W Id V) :
    Except (StepFailure E) (StepOutcome V) × PassState W Id V :=
  match step, cause with
  | .retry args times body, .retryScheduled attempt =>
    throughAttempts event args (fun attempt st => throughList world event body attempt 0 st)
      (times - (attempt + 1)) (attempt + 1) st
  | _, .waitingForEvent awaited => throughAwaited world awaited st
  | _, _ => (.ok .undefined, st)

/-- A step of a pass beside the same step of the walk that nothing interrupts: either they are alike, or the pass
suspends for one of the causes and the walk goes on with the rest of the step. -/
inductive StepRefines (world : StepWorld W Id V E) (event : WriteEvent V) (step : Step Id)
    (causes : SuspensionCause → Prop) (i : ℕ) (st : PassState W Id V) :
    Except (StepFailure E) (StepOutcome V) × PassState W Id V →
    Except (StepFailure E) (StepOutcome V) × PassState W Id V → Prop
  | alike {outcome : Except (StepFailure E) (StepOutcome V)} {st' : PassState W Id V}
      (hdone : outcome ≠ .ok .suspend) (hquiet : st'.suspensions = st.suspensions) :
      StepRefines world event step causes i st (outcome, st') (outcome, st')
  | suspended {cause : SuspensionCause} {st' : PassState W Id V} (hcause : causes cause)
      (hquiet : st'.suspensions = st.suspensions) :
      StepRefines world event step causes i st (.ok .suspend, st'.suspend ⟨i, cause⟩)
        (throughSuspended world event step cause st')

theorem StepRefines.mono {event : WriteEvent V} {causes causes' : SuspensionCause → Prop} {i : ℕ}
    {ran through : Except (StepFailure E) (StepOutcome V) × PassState W Id V}
    (h : StepRefines world event step causes i st ran through) (hle : ∀ cause, causes cause → causes' cause) :
    StepRefines world event step causes' i st ran through := by
  cases h with
  | alike hdone hquiet => exact .alike hdone hquiet
  | suspended hcause hquiet => exact .suspended (hle _ hcause) hquiet

/-- Nothing is appended by a walk that nothing interrupts. -/
theorem kept_suspensions :
    Kept fun st st' : PassState W Id V => st'.suspensions = st.suspensions where
  refl _ := rfl
  trans h h' := h'.trans h
  logged _ _ _ := rfl
  world _ _ := rfl
  store _ _ _ := rfl
  bind _ _ h := h

theorem stepRefines_of_synchronous (world : StepWorld W Id V E) (event : WriteEvent V)
    (hstep : step.suspends = false) (causes : SuspensionCause → Prop)
    (attempt : Option ℕ) (i : ℕ) (st : PassState W Id V) :
    StepRefines world event step causes i st (runStep world event step attempt i st)
      (throughStep world event step attempt st) := by
  obtain ⟨heq, hne⟩ := runStep_of_synchronous world event step attempt i st hstep
  have hquiet := kept_throughStep kept_suspensions world event step attempt st
  rw [← heq] at hquiet ⊢
  rcases hout : runStep world event step attempt i st with ⟨outcome, st'⟩
  rw [hout] at hquiet
  exact .alike (fun h => hne st' (by rw [hout, h])) hquiet

theorem shownAttempt_getD {n : ℕ} (hn : 1 ≤ n) : (shownAttempt n).getD 1 = n := by
  unfold shownAttempt
  by_cases h : n ≤ 1
  · rw [if_pos h]
    exact Nat.le_antisymm hn h
  · rw [if_neg h]
    rfl

/-- An attempt of a retry is followed by the next one, at once or after a resume. -/
theorem stepRefines_retry (world : StepWorld W Id V E) (event : WriteEvent V) (args : Id)
    (times : ℕ) {body : List (Step Id)} (hbody : listSuspends body = false) {n : ℕ} (hn : 1 ≤ n)
    (i : ℕ) (st : PassState W Id V) :
    StepRefines world event (.retry args times body)
      (fun cause => cause = .retryScheduled n ∧ n < times) i st
      (runStep world event (.retry args times body) (shownAttempt n) i st)
      (throughAttempts event args (fun attempt st => throughList world event body attempt 0 st)
        (times - n) n st) := by
  obtain ⟨heq, -⟩ :=
    runStepList_of_synchronous world event body (shownAttempt n) 0 (st.logged event args) hbody
  have hquiet := kept_throughList kept_suspensions world event body (shownAttempt n) 0
    (st.logged event args)
  rw [runStep, throughAttempts, heq, shownAttempt_getD hn]
  rcases hwalk : throughList world event body (shownAttempt n) 0 (st.logged event args)
    with ⟨error | _, st'⟩ <;> rw [hwalk] at hquiet
  · by_cases htimes : times ≤ n
    · simp only [if_pos htimes, Nat.sub_eq_zero_of_le htimes]
      exact .alike (fun h => by cases h) hquiet
    · have hleft : times - n = times - (n + 1) + 1 := by omega
      simp only [if_neg htimes, hleft]
      exact .suspended ⟨rfl, Nat.lt_of_not_le htimes⟩ hquiet
  · exact .alike (fun h => by cases h) hquiet

/-- The first time that a pass comes to a step of the top level. -/
theorem stepRefines_of_topLevel (world : StepWorld W Id V E) (event : WriteEvent V)
    (hstep : step.TopLevel) (i : ℕ) (st : PassState W Id V) :
    StepRefines world event step step.Suspended i st (runStep world event step none i st)
      (throughStep world event step none st) := by
  cases step with
  | plain args key => exact stepRefines_of_synchronous world event rfl _ none i st
  | branch args onTrue onFalse => exact stepRefines_of_synchronous world event hstep _ none i st
  | forEach args as body => exact stepRefines_of_synchronous world event hstep _ none i st
  | wait args =>
    rw [runStep, throughStep]
    rcases hres : resolve world.value event args none st with ⟨_ | _, st'⟩ <;>
      obtain ⟨w, rfl⟩ := state_of_resolve hres
    · exact .alike (fun h => by cases h) rfl
    · exact .suspended (show (Step.wait args).Suspended .waiting from trivial) rfl
  | waitForEvent args awaited =>
    rw [runStep, throughStep]
    rcases hres : resolve world.value event args none st with ⟨_ | _, st'⟩ <;>
      obtain ⟨w, rfl⟩ := state_of_resolve hres
    · exact .alike (fun h => by cases h) rfl
    · exact .suspended (show (Step.waitForEvent args awaited).Suspended (.waitingForEvent awaited) from rfl) rfl
  | retry args times body =>
    rw [throughStep]
    exact (stepRefines_retry world event args times hstep (Nat.le_refl 1) i st).mono
      fun cause ⟨hcause, htimes⟩ => by rw [hcause]; exact ⟨Nat.le_refl 1, htimes⟩

/-! ## One pass -/

/-- How often the steps may suspend. -/
def listSuspensions : List (Step Id) → ℕ
  | [] => 0
  | .wait _ :: steps | .waitForEvent _ _ :: steps => listSuspensions steps + 1
  | .retry _ times _ :: steps => listSuspensions steps + (times - 1)
  | _ :: steps => listSuspensions steps

/-- How often the steps may still suspend when the first of them has suspended, in this attempt of a retry. -/
def suspensionsAfter : List (Step Id) → Option ℕ → ℕ
  | [], _ => 0
  | .retry _ times _ :: steps, some attempt => listSuspensions steps + (times - 1 - attempt)
  | _ :: steps, _ => listSuspensions steps

theorem listSuspensions_le_cons (step : Step Id) (steps : List (Step Id)) :
    listSuspensions steps ≤ listSuspensions (step :: steps) := by
  cases step <;> simp only [listSuspensions] <;> omega

theorem suspensionsAfter_lt (h : step.Suspended cause) (steps : List (Step Id)) :
    suspensionsAfter (step :: steps) cause.retryAttempt < listSuspensions (step :: steps) := by
  cases step <;> cases cause <;> simp only [Step.Suspended] at h <;>
    simp only [suspensionsAfter, listSuspensions, SuspensionCause.retryAttempt] <;> omega

/-- The rest of a pipeline once its first step has suspended, in the walk that nothing interrupts. -/
def throughResumed (world : StepWorld W Id V E) (event : WriteEvent V) (steps : List (Step Id))
    (cause : SuspensionCause) (i : ℕ) (st : PassState W Id V) :
    Except (WorkflowStepError E) StepListOutcome × PassState W Id V :=
  match steps with
  | [] => (.ok .exhausted, st)
  | step :: steps =>
    afterStep step i (fun st => throughList world event steps none (i + 1) st)
      (throughSuspended world event step cause st)

/-- A pass over steps that may suspend `budget` times, beside the same steps of the walk that nothing interrupts: either
they end alike, or the pass suspends and the walk goes on from there. -/
inductive PassRefines (world : StepWorld W Id V E) (event : WriteEvent V) (steps : List (Step Id))
    (i budget : ℕ) (st : PassState W Id V) :
    Except (WorkflowStepError E) StepListOutcome × PassState W Id V →
    Except (WorkflowStepError E) StepListOutcome × PassState W Id V → Prop
  | alike {outcome : Except (WorkflowStepError E) StepListOutcome} {st' : PassState W Id V}
      (hdone : Settles (outcome, st')) : PassRefines world event steps i budget st (outcome, st') (outcome, st')
  | suspended {before after : List (Step Id)} {step : Step Id} {cause : SuspensionCause}
      {st' : PassState W Id V} (hsteps : steps = before ++ step :: after)
      (hstep : step.Suspended cause) (hquiet : st'.suspensions = st.suspensions)
      (hbudget : suspensionsAfter (step :: after) cause.retryAttempt < budget) :
      PassRefines world event steps i budget st
        (.ok (.suspended (i + before.length)), st'.suspend ⟨i + before.length, cause⟩)
        (throughResumed world event (step :: after) cause (i + before.length) st')

theorem settles_of_ne {outcome : Except (WorkflowStepError E) StepListOutcome}
    (h : ∀ i, outcome ≠ .ok (.suspended i)) : Settles (outcome, st) :=
  fun i _ heq => h i (congrArg Prod.fst heq)

/-- A pass over a step and those that follow it. -/
theorem PassRefines.cons {event : WriteEvent V}
    {steps : List (Step Id)} {causes : SuspensionCause → Prop} {i budget budget' : ℕ}
    {ran through : Except (StepFailure E) (StepOutcome V) × PassState W Id V} {continues throughs : PassState W Id V →
      Except (WorkflowStepError E) StepListOutcome × PassState W Id V}
    (h : StepRefines world event step causes i st ran through)
    (hrest : ran.1 ≠ .ok .suspend → (∀ cause, ran.1 ≠ .error cause) →
      ∀ st, PassRefines world event steps (i + 1) budget' st (continues st) (throughs st))
    (hthroughs : throughs = fun st => throughList world event steps none (i + 1) st) (hle : budget' ≤ budget)
    (hcauses : ∀ cause, causes cause →
      step.Suspended cause ∧ suspensionsAfter (step :: steps) cause.retryAttempt < budget) :
    PassRefines world event (step :: steps) i budget st (afterStep step i continues ran)
      (afterStep step i throughs through) := by
  have hgo : ran.1 ≠ .ok .suspend → (∀ cause, ran.1 ≠ .error cause) →
      ∀ st₁ : PassState W Id V, st₁.suspensions = st.suspensions →
        PassRefines world event (step :: steps) i budget st (continues st₁) (throughs st₁) := by
    intro hne hok st₁ hquiet
    have hpass := hrest hne hok st₁
    generalize continues st₁ = ran, throughs st₁ = through at hpass
    cases hpass with
    | alike hdone => exact .alike hdone
    | @suspended before after step' cause st' hsteps hstep hquiet' hbudget =>
      have hindex : i + 1 + before.length = i + (step :: before).length := by
        simp only [List.length_cons]; omega
      rw [hindex]
      exact .suspended (by rw [hsteps]; rfl) hstep (hquiet'.trans hquiet) (Nat.lt_of_lt_of_le hbudget hle)
  cases h with
  | @alike outcome st' hdone hquiet =>
    cases outcome with
    | error cause => exact .alike (settles_of_ne fun _ h => by cases h)
    | ok outcome =>
      have hgo' := hgo hdone (fun _ h => by cases h)
      cases outcome with
      | undefined => exact hgo' st' hquiet
      | suspend => exact absurd rfl hdone
      | value value =>
        simp only [afterStep]
        cases step.resultKey with
        | none => exact hgo' st' hquiet
        | some key =>
          by_cases hkey : key = RETURN_RESULT_KEY
          · simp only [if_pos hkey]
            exact .alike (settles_of_ne fun _ h => by cases h)
          · simp only [if_neg hkey]
            exact hgo' (st'.store key value) hquiet
  | @suspended cause st' hcause hquiet =>
    obtain ⟨hstep, hlt⟩ := hcauses cause hcause
    have hsuspended : PassRefines world event (step :: steps) i budget st
        (.ok (.suspended (i + ([] : List (Step Id)).length)),
          st'.suspend ⟨i + ([] : List (Step Id)).length, cause⟩)
        (throughResumed world event (step :: steps) cause (i + ([] : List (Step Id)).length) st') :=
      .suspended rfl hstep hquiet hlt
    rw [hthroughs]
    exact hsuspended

/-- The step does the same whatever the attempt counter of its context says. -/
def IgnoresAttempt (world : StepWorld W Id V E) (step : Step Id) : Prop :=
  ∀ event attempt i st, runStep world event step attempt i st = runStep world event step none i st

def Step.isWait : Step Id → Bool
  | .wait _ | .waitForEvent _ _ => true
  | _ => false

/-- Up to the next wait, no step does anything with an attempt counter. -/
def AttemptUnread (world : StepWorld W Id V E) : List (Step Id) → Prop
  | [] => True
  | step :: steps => IgnoresAttempt world step ∧ (step.isWait = false → AttemptUnread world steps)

theorem runStep_of_isWait (world : StepWorld W Id V E) (event : WriteEvent V)
    (hstep : step.isWait = true) (attempt : Option ℕ) (i : ℕ) (st : PassState W Id V) :
    (runStep world event step attempt i st).1 = .ok .suspend ∨
      ∃ cause, (runStep world event step attempt i st).1 = .error cause := by
  cases step with
  | wait args =>
    rw [runStep]
    rcases resolve world.value event args attempt st with ⟨error | _, st'⟩
    · exact .inr ⟨error, rfl⟩
    · exact .inl rfl
  | waitForEvent args awaited =>
    rw [runStep]
    rcases resolve world.value event args attempt st with ⟨error | _, st'⟩
    · exact .inr ⟨error, rfl⟩
    · exact .inl rfl
  | _ => cases hstep

/-- A pass over steps of a pipeline. The counter of a retry that has been resumed stays in the context, so the steps
after it must not read it. -/
theorem passRefines_of_topLevel (world : StepWorld W Id V E) (event : WriteEvent V)
    {steps : List (Step Id)} (htop : ∀ step ∈ steps, step.TopLevel) {attempt : Option ℕ}
    (hattempt : attempt = none ∨ AttemptUnread world steps) (i : ℕ) (st : PassState W Id V) :
    PassRefines world event steps i (listSuspensions steps) st
      (runStepList world event steps attempt 0 i st) (throughList world event steps none i st) := by
  induction steps generalizing i st with
  | nil =>
    rw [runStepList, throughList]
    exact .alike (settles_of_ne fun _ h => by cases h)
  | cons step steps ih =>
    have hsame : runStep world event step attempt i st = runStep world event step none i st := by
      rcases hattempt with rfl | h
      · rfl
      · exact h.1 event attempt i st
    rw [runStepList, throughList, if_neg (Nat.not_lt_zero i)]
    refine PassRefines.cons
      (by rw [hsame]; exact stepRefines_of_topLevel world event (htop step (List.mem_cons_self ..)) i st)
      (fun hne hok st' => ?_) rfl (listSuspensions_le_cons step steps)
      fun cause hcause => ⟨hcause, suspensionsAfter_lt hcause steps⟩
    have hwait : step.isWait = false := by
      by_contra hwait
      rcases runStep_of_isWait world event (Bool.of_not_eq_false hwait) attempt i st
        with h | ⟨cause, h⟩
      · exact hne h
      · exact hok cause h
    exact ih (fun step h => htop step (List.mem_cons_of_mem _ h))
      (hattempt.imp_right fun h => h.2 hwait) (i + 1) st'

/-- A pass that goes on with the next attempt of a retry. -/
theorem passRefines_of_retry (world : StepWorld W Id V E) (event : WriteEvent V) {args : Id}
    {times : ℕ} {body steps : List (Step Id)} (hbody : listSuspends body = false)
    (htop : ∀ step ∈ steps, step.TopLevel) (hunread : AttemptUnread world steps) {n : ℕ}
    (hn : 1 ≤ n) (i : ℕ) (st : PassState W Id V) :
    PassRefines world event (.retry args times body :: steps) i
      (suspensionsAfter (.retry args times body :: steps) (some n)) st
      (runStepList world event (.retry args times body :: steps) (some (n + 1)) 0 i st)
      (throughResumed world event (.retry args times body :: steps) (.retryScheduled n) i st) := by
  have hshown : some (n + 1) = shownAttempt (n + 1) := by
    rw [shownAttempt, if_neg (by omega)]
  have hstep := stepRefines_retry world event args times hbody (Nat.le_add_left 1 n) i st
  rw [runStepList, if_neg (Nat.not_lt_zero i), throughResumed, throughSuspended]
  refine PassRefines.cons (by rw [hshown]; exact hstep)
    (fun _ _ st => passRefines_of_topLevel world event htop (.inr hunread) (i + 1) st) rfl
    (by simp only [suspensionsAfter]; omega) ?_
  -- an attempt that fails again is the next one
  rintro cause ⟨rfl, hlt⟩
  refine ⟨⟨Nat.le_add_left 1 n, hlt⟩, ?_⟩
  simp only [suspensionsAfter, SuspensionCause.retryAttempt]
  omega

/-! ## The pass of a resume -/

theorem runStepList_of_le (world : StepWorld W Id V E) (event : WriteEvent V)
    (steps : List (Step Id)) (attempt : Option ℕ) {resumeFrom i : ℕ} (h : resumeFrom ≤ i)
    (st : PassState W Id V) :
    runStepList world event steps attempt resumeFrom i st =
      runStepList world event steps attempt 0 i st := by
  induction steps generalizing i st with
  | nil => rw [runStepList, runStepList]
  | cons step steps ih =>
    rw [runStepList, runStepList, if_neg (Nat.not_lt.2 h), if_neg (Nat.not_lt_zero i)]
    simp only [fun st => ih (Nat.le_succ_of_le h) st]

/-- A resumed pass skips the steps before the one it resumes from. -/
theorem runStepList_skip (world : StepWorld W Id V E) (event : WriteEvent V)
    (before steps : List (Step Id)) (attempt : Option ℕ) (i : ℕ) (st : PassState W Id V) :
    runStepList world event (before ++ steps) attempt (i + before.length) i st =
      runStepList world event steps attempt 0 (i + before.length) st := by
  induction before generalizing i with
  | nil => exact runStepList_of_le world event steps attempt (Nat.le_refl i) st
  | cons step before ih =>
    have hlt : i < i + (step :: before).length := by
      rw [List.length_cons]; omega
    have hindex : i + (step :: before).length = i + 1 + before.length := by
      rw [List.length_cons]; omega
    rw [List.cons_append, runStepList, if_pos hlt, hindex]
    exact ih (i + 1)

/-- The steps before and after are related by what has been executed: nothing of it is lost. -/
theorem kept_executed :
    Kept fun st st' : PassState W Id V => st.executed <+: st'.executed where
  refl _ := List.prefix_refl _
  trans h h' := h.trans h'
  logged _ _ _ := List.prefix_append ..
  world _ _ := List.prefix_refl _
  store _ _ _ := List.prefix_refl _
  bind _ _ h := h

/-- A walk leaves the scope as it was. -/
theorem kept_scope : Kept fun st st' : PassState W Id V => st'.scope = st.scope where
  refl _ := rfl
  trans h h' := h'.trans h
  logged _ _ _ := rfl
  world _ _ := rfl
  store _ _ _ := rfl
  bind as item h := by simp only [PassState.bind, h]

/-- The pipelines whose passes go on where the one before has stopped: suspensions stand at the top level, and a retry
that has been resumed leaves its counter to no step that does anything with it. -/
structure Resumable (world : StepWorld W Id V E) (pipeline : List (Step Id)) : Prop where
  topLevel : ∀ step ∈ pipeline, step.TopLevel
  attempts : ∀ before args times body after, pipeline = before ++ .retry args times body :: after →
    AttemptUnread world after

/-- Where the pass of a resume begins, and what is left of the walk that nothing interrupts there. -/
structure ResumedPass (world : StepWorld W Id V E) (pipeline : List (Step Id)) (step : Step Id)
    (after : List (Step Id)) (row : SuspensionEvent) (before steps : List (Step Id))
    (throughs : WriteEvent V → PassState W Id V →
      Except (WorkflowStepError E) StepListOutcome × PassState W Id V) : Prop where
  pipeline_eq : pipeline = before ++ steps
  resumeFrom_eq : row.resumeFrom = before.length
  refines : ∀ event st, PassRefines world event steps before.length
    (suspensionsAfter (step :: after) row.cause.retryAttempt) st
    (runStepList world event pipeline (row.cause.retryAttempt.map (· + 1)) row.resumeFrom 0 st)
    (throughs event st)
  through_eq : ∀ event st value w, awaitedPayload world row.cause st.world = (.payload value, w) →
    throughResumed world event (step :: after) row.cause row.stepIndex st =
      throughs event { st with world := w, steps := keptResults row.cause value st.steps }
  ends : steps = [] → suspensionsAfter (step :: after) row.cause.retryAttempt = 0 ∧
    ∀ event st, throughs event st = (.ok .exhausted, st)
  starts : ∀ first rest, steps = first :: rest → ∀ event st,
    (st.logged event first.args).executed <+: (throughs event st).2.executed

/-- The pass of a resume begins behind a wait, and at a retry with the step itself. -/
theorem exists_resumedPass (hp : Resumable world pipeline)
    (hpipeline : pipeline = before ++ step :: after) (hstep : step.Suspended cause) :
    ∃ before' steps throughs, ResumedPass world pipeline step after ⟨before.length, cause⟩ before'
      steps throughs := by
  have hafter : ∀ step ∈ after, step.TopLevel := fun step h =>
    hp.topLevel step (by rw [hpipeline]; exact List.mem_append_right _ (List.mem_cons_of_mem _ h))
  have hpast : pipeline = (before ++ [step]) ++ after := by
    rw [hpipeline, List.append_assoc]; rfl
  have hlength : (before ++ [step]).length = before.length + 1 := by
    rw [List.length_append]; rfl
  -- after a wait the pass begins with the next step
  have hwait : cause.retryAttempt = none →
      (∀ event st value w, awaitedPayload world cause st.world = (.payload value, w) →
        throughResumed world event (step :: after) cause before.length st =
          throughList world event after none (before.length + 1)
            { st with world := w, steps := keptResults cause value st.steps }) →
      suspensionsAfter (step :: after) none = listSuspensions after →
      (SuspensionEvent.mk before.length cause).resumeFrom = before.length + 1 →
      ∃ before' steps throughs, ResumedPass world pipeline step after ⟨before.length, cause⟩ before'
        steps throughs := by
    intro hnone hthrough hbudget hfrom
    refine ⟨before ++ [step], after, fun event st => throughList world event after none (before.length + 1) st,
      hpast, hfrom.trans hlength.symm, fun event st => ?_, hthrough, fun hsteps => ?_,
      fun first rest hsteps event st => ?_⟩
    · have hskip := runStepList_skip world event (before ++ [step]) after none 0 st
      rw [Nat.zero_add, ← hpast, hlength] at hskip
      simp only [hnone, hfrom, hlength, Option.map_none, hskip, hbudget]
      exact passRefines_of_topLevel world event hafter (.inl rfl) (before.length + 1) st
    · subst hsteps
      rw [hnone]
      exact ⟨hbudget, fun _ _ => by rw [throughList]⟩
    · rw [hsteps]
      exact kept_throughList_cons kept_executed world event first rest none _ st
  cases cause with
  | waiting =>
    refine hwait rfl (fun event st value w h => ?_) (by cases step <;> rfl) rfl
    obtain ⟨rfl, rfl⟩ : value = none ∧ w = st.world := by
      simp only [awaitedPayload, Prod.mk.injEq, AwaitedPayload.payload.injEq] at h
      exact ⟨h.1.symm, h.2.symm⟩
    cases step <;> rfl
  | waitingForEvent awaited =>
    refine hwait rfl (fun event st value w h => ?_) (by cases step <;> rfl) rfl
    cases step with
    | waitForEvent args awaited' =>
      simp only [awaitedPayload] at h
      simp only [throughResumed, throughSuspended, throughAwaited]
      rcases hawaited : world.awaited awaited st.world with ⟨_ | payload, w'⟩ <;>
        simp only [hawaited, Prod.mk.injEq] at h
      · cases h.1
      · obtain ⟨hvalue, rfl⟩ := h
        cases hvalue
        rfl
    | _ => cases hstep
  | retryScheduled n =>
    cases step with
    | retry args times body =>
      have hstep' := hp.topLevel (.retry args times body)
        (by rw [hpipeline]; exact List.mem_append_right _ (List.mem_cons_self ..))
      refine ⟨before, .retry args times body :: after,
        fun event st => throughResumed world event (.retry args times body :: after) (.retryScheduled n)
          before.length st, hpipeline, rfl, fun event st => ?_, fun event st value w h => ?_,
        fun h => (List.cons_ne_nil _ _ h).elim, fun first rest hsteps event st => ?_⟩
      · have hskip := runStepList_skip world event before (.retry args times body :: after)
          (some (n + 1)) 0 st
        rw [Nat.zero_add, ← hpipeline] at hskip
        simp only [SuspensionCause.retryAttempt, SuspensionEvent.resumeFrom, Option.map_some, hskip]
        exact passRefines_of_retry world event hstep' hafter
          (hp.attempts before args times body after hpipeline) hstep.1 before.length st
      · obtain ⟨rfl, rfl⟩ : value = none ∧ w = st.world := by
          simp only [awaitedPayload, Prod.mk.injEq, AwaitedPayload.payload.injEq] at h
          exact ⟨h.1.symm, h.2.symm⟩
        rfl
      · obtain ⟨rfl, rfl⟩ := List.cons.inj hsteps
        simp only [throughResumed, throughSuspended]
        exact kept_afterStep kept_executed
          (fun st => kept_throughList kept_executed world event after none (before.length + 1) st)
          (kept_throughAttempts kept_executed
            (fun attempt st => kept_throughList kept_executed world event body attempt 0 st) _ _ st)
    | _ => cases hstep

/-- A resume puts the awaited payload under the key that its step would have put it under. -/
theorem seedResumedStepResults_eq (hpipeline : pipeline = before ++ step :: after)
    (hstep : step.Suspended cause) {value : Option V} {w w' : W}
    (hvalue : awaitedPayload world cause w = (.payload value, w')) :
    seedResumedStepResults pipeline ⟨before.length, cause⟩ value = keptResults cause value noResults := by
  have hget : pipeline[before.length]? = some step := by
    rw [hpipeline, List.getElem?_append_right (Nat.le_refl _), Nat.sub_self]
    rfl
  cases value with
  | none => cases cause <;> rfl
  | some value =>
    cases cause with
    | waitingForEvent awaited =>
      cases step with
      | waitForEvent args awaited' =>
        cases hstep
        simp only [seedResumedStepResults, hget, Option.bind_some, Step.resultKey, keptResults]
      | _ => cases hstep
    | waiting => cases hvalue
    | retryScheduled n => cases hvalue

/-! ## The run between its passes -/

/-- The run waits at a step of the pipeline, and the last pass has ended in the state `st` there. -/
structure WaitsAt (pipeline : List (Step Id)) (run : WorkflowRun W Id V E)
    (before : List (Step Id)) (step : Step Id) (after : List (Step Id)) (cause : SuspensionCause)
    (st : PassState W Id V) : Prop where
  pipeline_eq : pipeline = before ++ step :: after
  suspended : step.Suspended cause
  pending_eq : run.pending = [⟨before.length, cause⟩]
  last_eq : run.last = st.suspend ⟨before.length, cause⟩
  settled_eq : run.settled = none
  scope_eq : st.scope = noResults
  quiet : st.suspensions = []

/-- What the end of a pass leaves: a result, or a run that waits. -/
theorem endPass_of_passRefines {event : WriteEvent V} {pipeline before steps : List (Step Id)} {budget : ℕ}
    (hpipeline : pipeline = before ++ steps) (hscope : st.scope = noResults)
    (hquiet : st.suspensions = []) (hran : ran.2.scope = st.scope)
    (h : PassRefines world event steps before.length budget st ran through) (resumed : List (ℕ × Option ℕ)) :
    ((endPass pipeline resumed ran).settled = some (finalRun through).1 ∧
      ran.2.executed = (finalRun through).2) ∨
    ∃ before' step after cause st', WaitsAt pipeline (endPass pipeline resumed ran) before' step after cause st' ∧
      suspensionsAfter (step :: after) cause.retryAttempt < budget ∧
      through = throughResumed world event (step :: after) cause before'.length st' := by
  cases h with
  | @alike outcome st' hdone =>
    refine .inl ?_
    rcases outcome with error | _ | i | _
    · exact ⟨rfl, rfl⟩
    · exact ⟨rfl, rfl⟩
    · exact absurd rfl (hdone i st')
    · exact ⟨rfl, rfl⟩
  | @suspended middle after step cause st' hsteps hstep hquiet' hbudget =>
    have hpipeline' : pipeline = (before ++ middle) ++ step :: after := by
      rw [hpipeline, hsteps, List.append_assoc]
    have hlength : before.length + middle.length = (before ++ middle).length :=
      (List.length_append ..).symm
    rw [hlength]
    have hresumable : isResumableSuspension pipeline (before ++ middle).length = true := by
      rw [isResumableSuspension, hpipeline', List.getElem?_append_right (Nat.le_refl _), Nat.sub_self]
      cases step <;> first | rfl | (cases cause <;> cases hstep)
    have hnone : st'.suspensions = [] := hquiet'.trans hquiet
    refine .inr ⟨before ++ middle, step, after, cause, st', ⟨hpipeline', hstep, ?_, ?_, ?_, ?_, hnone⟩,
      hbudget, rfl⟩
    · simp only [endPass, if_pos hresumable, PassState.suspend, hnone]
      rfl
    · simp only [endPass, if_pos hresumable]
    · simp only [endPass, if_pos hresumable]
    · exact hran.trans hscope

/-- The claims that a run has seen are of suspensions that it has left behind. -/
structure ClaimsBehind (pipeline : List (Step Id)) (resumed : List (ℕ × Option ℕ)) (left : ℕ) : Prop where
  length_le : resumed.length + left < listSuspensions pipeline
  later : ∀ claim ∈ resumed, left < suspensionsAfter (pipeline.drop claim.1) claim.2

/-- A run has been resumed no more often than its pipeline may suspend, and while it has not settled it waits at a step.
Where it is `faithful` it comes to what the walk that nothing interrupts comes to. -/
structure RunInv (world : StepWorld W Id V E) (event : WriteEvent V) (pipeline : List (Step Id))
    (w : W) (faithful : Prop) (run : WorkflowRun W Id V E) : Prop where
  resumed_le : run.resumed.length ≤ listSuspensions pipeline
  waits : run.settled = none → ∃ before step after cause st,
    WaitsAt pipeline run before step after cause st ∧
      ClaimsBehind pipeline run.resumed (suspensionsAfter (step :: after) cause.retryAttempt) ∧
      (faithful → throughList world event pipeline none 0 ⟨w, noResults, noResults, [], []⟩ =
        throughResumed world event (step :: after) cause before.length st)
  settles : faithful → ∀ result, run.settled = some result →
    (result, run.last.executed) = uninterruptedRun world event pipeline w

theorem endPass_resumed (pipeline : List (Step Id)) (resumed : List (ℕ × Option ℕ))
    (outcome : Except (WorkflowStepError E) StepListOutcome × PassState W Id V) :
    (endPass pipeline resumed outcome).resumed = resumed := by
  rcases outcome with ⟨error | _ | i | _, st⟩
  · rfl
  · rfl
  · by_cases h : isResumableSuspension pipeline i = true
    · simp only [endPass, if_pos h]
    · simp only [endPass, if_neg h]
  · rfl

theorem endPass_last (pipeline : List (Step Id)) (resumed : List (ℕ × Option ℕ))
    (outcome : Except (WorkflowStepError E) StepListOutcome × PassState W Id V) :
    (endPass pipeline resumed outcome).last = outcome.2 := by
  rcases outcome with ⟨error | _ | i | _, st⟩
  · rfl
  · rfl
  · by_cases h : isResumableSuspension pipeline i = true
    · simp only [endPass, if_pos h]
    · simp only [endPass, if_neg h]
  · rfl

section Run

variable {world : StepWorld W Id V E} {event : WriteEvent V} {pipeline : List (Step Id)} {w : W}
  {faithful : Prop} {run run' : WorkflowRun W Id V E}

/-- The end of a pass, the first one or that of a resume. -/
theorem runInv_endPass {event' : WriteEvent V} {before steps : List (Step Id)} {budget : ℕ}
    {resumed : List (ℕ × Option ℕ)} (hpipeline : pipeline = before ++ steps)
    (hscope : st.scope = noResults) (hquiet : st.suspensions = []) (hran : ran.2.scope = st.scope)
    (h : PassRefines world event' steps before.length budget st ran through)
    (hresumed : resumed.length + budget ≤ listSuspensions pipeline)
    (hclaims : ∀ claim ∈ resumed, budget ≤ suspensionsAfter (pipeline.drop claim.1) claim.2)
    (hfaithful : faithful → finalRun through = uninterruptedRun world event pipeline w ∧
      (0 < budget → event' = event ∧
        throughList world event pipeline none 0 ⟨w, noResults, noResults, [], []⟩ = through)) :
    RunInv world event pipeline w faithful (endPass pipeline resumed ran) := by
  have hlength : (endPass pipeline resumed ran).resumed.length ≤ listSuspensions pipeline := by
    rw [endPass_resumed]; omega
  rcases endPass_of_passRefines hpipeline hscope hquiet hran h resumed with
    ⟨hsettled, hexecuted⟩ | ⟨before', step, after, cause, st', hwaits, hlt, hthrough⟩
  · refine ⟨hlength, fun hnone => ?_, fun hf result hresult => ?_⟩
    · rw [hsettled] at hnone; cases hnone
    · rw [hsettled] at hresult
      cases hresult
      rw [endPass_last, hexecuted, ← (hfaithful hf).1]
  · refine ⟨hlength, fun _ => ⟨before', step, after, cause, st', hwaits, ⟨?_, ?_⟩, fun hf => ?_⟩,
      fun hf result hresult => ?_⟩
    · rw [endPass_resumed]; omega
    · rw [endPass_resumed]
      exact fun claim hclaim => Nat.lt_of_lt_of_le hlt (hclaims claim hclaim)
    · obtain ⟨rfl, heq⟩ := (hfaithful hf).2 (by omega)
      exact heq.trans hthrough
    · rw [hwaits.settled_eq] at hresult; cases hresult

/-- The first pass. -/
theorem runInv_startAndRunWorkflow (hp : Resumable world pipeline) (faithful : Prop) :
    RunInv world event pipeline w faithful (startAndRunWorkflow world event pipeline w) :=
  runInv_endPass (show pipeline = [] ++ pipeline from rfl) rfl rfl
    (kept_runStepList kept_scope (fun _ _ => rfl) world event pipeline none 0 0
      ⟨w, noResults, noResults, [], []⟩)
    (passRefines_of_topLevel world event hp.topLevel (.inl rfl) 0 ⟨w, noResults, noResults, [], []⟩)
    (Nat.le_of_eq (Nat.zero_add _)) (fun _ h => (List.not_mem_nil h).elim) fun _ => ⟨rfl, fun _ => ⟨rfl, rfl⟩⟩

/-- A claim of a suspension that is still open is new. -/
theorem ClaimsBehind.fresh {resumed : List (ℕ × Option ℕ)}
    (h : ClaimsBehind pipeline resumed (suspensionsAfter (step :: after) cause.retryAttempt))
    (hpipeline : pipeline = before ++ step :: after) :
    (before.length, cause.retryAttempt) ∉ resumed := by
  intro hmem
  have hlt := h.later _ hmem
  simp only [hpipeline, List.drop_left'] at hlt
  exact Nat.lt_irrefl _ hlt

theorem find?_of_waitsAt {before after : List (Step Id)}
    (hw : WaitsAt pipeline run before step after cause st) (stepIndex : ℕ) :
    run.pending.find? (fun row => row.stepIndex == stepIndex) =
      if before.length = stepIndex then some ⟨before.length, cause⟩ else none := by
  rw [hw.pending_eq, List.find?_cons, List.find?_nil]
  by_cases h : before.length = stepIndex
  · rw [if_pos h, beq_iff_eq.2 h]
  · rw [if_neg h, beq_eq_false_iff_ne.2 h]

/-- A run that waits is resumed by its one row. -/
theorem resumeRun_of_waitsAt {before after : List (Step Id)} (hw : WaitsAt pipeline run before step after cause st)
    (hfresh : (before.length, cause.retryAttempt) ∉ run.resumed) (stepIndex : ℕ) :
    resumeRun world event pipeline run stepIndex =
      if before.length = stepIndex then some (resumeRow world event pipeline run ⟨before.length, cause⟩)
      else none := by
  simp only [resumeRun, hw.settled_eq, find?_of_waitsAt hw]
  by_cases h : before.length = stepIndex
  · simp only [if_pos h, if_neg hfresh]
  · simp only [if_neg h]

/-- What a resume recovers, of the row that a run waits with. -/
theorem recovers_iff_of_waitsAt {before after : List (Step Id)}
    (hw : WaitsAt pipeline run before step after cause st) :
    Recovers world event pipeline run before.length ↔
      ∃ payload, world.triggerPayload st.world = some payload ∧
        ∀ value w, awaitedPayload world cause st.world = (.payload value, w) →
          (SuspensionEvent.mk before.length cause).resumeFrom < pipeline.length →
            payload = event.payload ∧
              keptResults cause value noResults = keptResults cause value st.steps := by
  have hseed : ∀ {value : Option V} {w' : W}, awaitedPayload world cause st.world = (.payload value, w') →
      seedResumedStepResults pipeline ⟨before.length, cause⟩ value = keptResults cause value noResults :=
    fun h => seedResumedStepResults_eq hw.pipeline_eq hw.suspended h
  have hworld : run.last.world = st.world := by rw [hw.last_eq]; rfl
  have hsteps : run.last.steps = st.steps := by rw [hw.last_eq]; rfl
  unfold Recovers
  rw [find?_of_waitsAt hw, if_pos rfl, hworld, hsteps]
  constructor
  · intro h
    obtain ⟨payload, htrigger, hrest⟩ := h _ rfl
    exact ⟨payload, htrigger, fun value w hvalue hlt => by
      rw [← hseed hvalue]; exact hrest value w hvalue hlt⟩
  · rintro ⟨payload, htrigger, hrest⟩ row hrow
    cases hrow
    exact ⟨payload, htrigger, fun value w hvalue hlt => by
      rw [hseed hvalue]; exact hrest value w hvalue hlt⟩

/-- Where the awaited event is gone, the walk that nothing interrupts fails at its step. -/
theorem throughResumed_of_unavailable (hstep : step.Suspended cause) {w' : W}
    (h : awaitedPayload world cause st.world = (.unavailable, w')) (after : List (Step Id)) (i : ℕ) :
    throughResumed world event (step :: after) cause i st =
      (.error ⟨i, .awaitedEventUnavailable⟩, { st with world := w' }) := by
  cases cause with
  | waiting => cases h
  | retryScheduled n => cases h
  | waitingForEvent awaited =>
    cases step with
    | waitForEvent args awaited' =>
      simp only [awaitedPayload] at h
      simp only [throughResumed, throughSuspended, throughAwaited]
      rcases hawaited : world.awaited awaited st.world with ⟨_ | payload, w₁⟩ <;>
        simp only [hawaited, Prod.mk.injEq] at h
      · obtain ⟨-, rfl⟩ := h
        rfl
      · cases h.1
    | _ => cases hstep

/-- A resume of a run, and what it has to recover for the run to stay faithful. -/
theorem RunInv.resume (hp : Resumable world pipeline) (h : RunInv world event pipeline w faithful run)
    {stepIndex : ℕ} (hrecovers : faithful → Recovers world event pipeline run stepIndex)
    (hresume : resumeRun world event pipeline run stepIndex = some run') :
    RunInv world event pipeline w faithful run' := by
  have hopen : run.settled = none := by
    unfold resumeRun at hresume
    cases hs : run.settled with
    | none => rfl
    | some result => simp only [hs] at hresume; cases hresume
  obtain ⟨before, step, after, cause, st, hw, hbehind, hthrough⟩ := h.waits hopen
  rw [resumeRun_of_waitsAt hw (hbehind.fresh hw.pipeline_eq)] at hresume
  by_cases hindex : before.length = stepIndex
  · rw [if_pos hindex] at hresume
    subst hindex
    obtain ⟨before', steps, throughs, hpass⟩ := exists_resumedPass hp hw.pipeline_eq hw.suspended
    rw [recovers_iff_of_waitsAt hw] at hrecovers
    have hlength : run.resumed.length + 1 ≤ listSuspensions pipeline := by
      have := hbehind.length_le; omega
    have hworld : run.last.world = st.world := by rw [hw.last_eq]; rfl
    have hexecuted : run.last.executed = st.executed := by rw [hw.last_eq]; rfl
    obtain rfl : resumeRow world event pipeline run ⟨before.length, cause⟩ = run' :=
      Option.some.inj hresume
    unfold resumeRow
    simp only [hworld, hexecuted]
    cases htrigger : world.triggerPayload st.world with
    | none =>
      refine ⟨hlength, fun h => (nomatch h), fun hf _ _ => ?_⟩
      obtain ⟨payload, hpayload, -⟩ := hrecovers hf
      rw [htrigger] at hpayload; cases hpayload
    | some payload =>
      rcases hvalue : awaitedPayload world cause st.world with ⟨_ | value, w'⟩
      · refine ⟨hlength, fun h => (nomatch h), fun hf result hresult => ?_⟩
        cases hresult
        rw [uninterruptedRun, hthrough hf, throughResumed_of_unavailable hw.suspended hvalue]
        simp only [finalRun]
      · simp only [seedResumedStepResults_eq hw.pipeline_eq hw.suspended hvalue]
        refine runInv_endPass hpass.pipeline_eq rfl rfl
          (kept_runStepList kept_scope (fun _ _ => rfl) world _ pipeline _ _ 0 _)
          (hpass.refines _ _) ?_ ?_ fun hf => ?_
        · have := hbehind.length_le
          simp only [List.length_cons]; omega
        · intro claim hclaim
          rcases List.mem_cons.1 hclaim with rfl | hclaim
          · simp only [hw.pipeline_eq, List.drop_left', Nat.le_refl]
          · exact Nat.le_of_lt (hbehind.later claim hclaim)
        · obtain ⟨payload', hpayload, hrest⟩ := hrecovers hf
          obtain rfl : payload = payload' := Option.some.inj (htrigger.symm.trans hpayload)
          have hthrough' : uninterruptedRun world event pipeline w = finalRun (throughs event
              { st with world := w', steps := keptResults cause value st.steps }) := by
            rw [uninterruptedRun, hthrough hf, hpass.through_eq event st value w' hvalue]
          by_cases hsteps : steps = []
          · obtain ⟨hzero, hends⟩ := hpass.ends hsteps
            refine ⟨?_, fun hpos => absurd hpos (by rw [hzero]; exact Nat.lt_irrefl 0)⟩
            rw [hthrough', hends, hends]
            rfl
          · have hlt : (SuspensionEvent.mk before.length cause).resumeFrom < pipeline.length := by
              rw [hpass.resumeFrom_eq, hpass.pipeline_eq, List.length_append]
              have := List.length_pos_of_ne_nil hsteps
              omega
            obtain ⟨rfl, hkept⟩ := hrest value w' hvalue hlt
            have hstate : (⟨w', keptResults cause value noResults, noResults, st.executed, []⟩ :
                PassState W Id V) = { st with world := w', steps := keptResults cause value st.steps } := by
              rw [← hkept, ← hw.scope_eq, ← hw.quiet]
            rw [hstate, hthrough']
            exact ⟨rfl, fun _ => ⟨rfl, (hthrough hf).trans (hpass.through_eq event st value w' hvalue)⟩⟩
  · rw [if_neg hindex] at hresume; cases hresume

/-- A run that waits can be resumed. -/
theorem RunInv.progress (h : RunInv world event pipeline w faithful run) (hopen : run.settled = none) :
    ∃ stepIndex run', resumeRun world event pipeline run stepIndex = some run' := by
  obtain ⟨before, step, after, cause, st, hw, hbehind, -⟩ := h.waits hopen
  exact ⟨before.length, _, by
    rw [resumeRun_of_waitsAt hw (hbehind.fresh hw.pipeline_eq), if_pos rfl]⟩

/-! ## Runs that lose what the uninterrupted run has -/

/-- The run has executed a step that the uninterrupted run does not execute there, or not with the same context, or it
has found its trigger gone. -/
def Diverged (world : StepWorld W Id V E) (event : WriteEvent V) (pipeline : List (Step Id)) (w : W)
    (run : WorkflowRun W Id V E) : Prop :=
  (∃ common executed executed', common ++ [executed] <+: (uninterruptedRun world event pipeline w).2 ∧
    common ++ [executed'] <+: run.last.executed ∧ executed ≠ executed') ∨
  ∃ i, run.settled = some (.failed i .triggerEventUnavailable)

theorem finalRun_executed
    (outcome : Except (WorkflowStepError E) StepListOutcome × PassState W Id V) :
    (finalRun outcome).2 = outcome.2.executed := by
  rcases outcome with ⟨error | outcome, st⟩ <;> rfl

/-- A run that has gone another way does not come back. -/
theorem Diverged.not_transparent (h : Diverged world event pipeline w run) :
    ¬ Transparent world event pipeline w run := by
  rintro ⟨result, hsettled, heq⟩
  rcases h with ⟨common, executed, executed', hthrough, hrun, hne⟩ | ⟨i, hi⟩
  · rw [← heq] at hthrough
    have hprefix := List.prefix_of_prefix_length_le hthrough hrun
      (by simp only [List.length_append, List.length_singleton, Nat.le_refl])
    have hlists := hprefix.eq_of_length
      (by simp only [List.length_append, List.length_singleton])
    exact hne (List.singleton_inj.1 (List.append_cancel_left hlists))
  · rw [hi] at hsettled
    cases hsettled
    unfold uninterruptedRun at heq
    rcases hwalk : throughList world event pipeline none 0 ⟨w, noResults, noResults, [], []⟩
      with ⟨error | outcome, st⟩ <;> rw [hwalk] at heq <;> cases heq

/-- A resume only adds to what was executed. -/
theorem resumeRow_executed (row : SuspensionEvent) :
    run.last.executed <+: (resumeRow world event pipeline run row).last.executed := by
  unfold resumeRow
  cases world.triggerPayload run.last.world with
  | none => exact List.prefix_refl _
  | some payload =>
    rcases awaitedPayload world row.cause run.last.world with ⟨_ | value, w'⟩
    · exact List.prefix_refl _
    · have hpass := kept_runStepList kept_executed (fun _ _ => List.prefix_refl _) world
        ⟨event.type, payload⟩ pipeline (row.cause.retryAttempt.map (· + 1)) row.resumeFrom 0
        ⟨w', seedResumedStepResults pipeline row value, noResults, run.last.executed, []⟩
      simp only [endPass_last]
      exact hpass

theorem resumeRun_eq_some {stepIndex : ℕ}
    (h : resumeRun world event pipeline run stepIndex = some run') :
    run.settled = none ∧ ∃ row, resumeRow world event pipeline run row = run' := by
  unfold resumeRun at h
  cases hs : run.settled with
  | some result => simp only [hs] at h; cases h
  | none =>
    cases hrow : run.pending.find? (fun row => row.stepIndex == stepIndex) with
    | none => simp only [hs, hrow] at h; cases h
    | some row =>
      simp only [hs, hrow] at h
      by_cases hclaim : (row.stepIndex, row.cause.retryAttempt) ∈ run.resumed
      · rw [if_pos hclaim] at h; cases h
      · rw [if_neg hclaim] at h
        exact ⟨rfl, row, Option.some.inj h⟩

/-- Nor does a resume of it. -/
theorem Diverged.resume (h : Diverged world event pipeline w run) {stepIndex : ℕ}
    (hresume : resumeRun world event pipeline run stepIndex = some run') :
    Diverged world event pipeline w run' := by
  obtain ⟨hopen, row, rfl⟩ := resumeRun_eq_some hresume
  rcases h with ⟨common, executed, executed', hthrough, hrun, hne⟩ | ⟨i, hi⟩
  · exact .inl ⟨common, executed, executed', hthrough, hrun.trans (resumeRow_executed row), hne⟩
  · rw [hopen] at hi; cases hi

/-- A resume that does not recover what the run was suspended with makes it diverge. -/
theorem RunInv.diverged (hp : Resumable world pipeline) (h : RunInv world event pipeline w True run)
    {stepIndex : ℕ} (hrecovers : ¬ Recovers world event pipeline run stepIndex)
    (hresume : resumeRun world event pipeline run stepIndex = some run') :
    Diverged world event pipeline w run' := by
  obtain ⟨before, step, after, cause, st, hw, hbehind, hthrough⟩ :=
    h.waits (resumeRun_eq_some hresume).1
  rw [resumeRun_of_waitsAt hw (hbehind.fresh hw.pipeline_eq)] at hresume
  by_cases hindex : before.length = stepIndex
  · rw [if_pos hindex] at hresume
    subst hindex
    rw [recovers_iff_of_waitsAt hw] at hrecovers
    obtain rfl : resumeRow world event pipeline run ⟨before.length, cause⟩ = run' :=
      Option.some.inj hresume
    have hworld : run.last.world = st.world := by rw [hw.last_eq]; rfl
    have hexecuted : run.last.executed = st.executed := by rw [hw.last_eq]; rfl
    unfold resumeRow
    simp only [hworld, hexecuted]
    cases htrigger : world.triggerPayload st.world with
    | none => exact .inr ⟨before.length, rfl⟩
    | some payload =>
      obtain ⟨value, w', hvalue, hlt, hne⟩ : ∃ value w',
          awaitedPayload world cause st.world = (.payload value, w') ∧
            (SuspensionEvent.mk before.length cause).resumeFrom < pipeline.length ∧
            ¬ (payload = event.payload ∧
              keptResults cause value noResults = keptResults cause value st.steps) := by
        by_contra hall
        refine hrecovers ⟨payload, htrigger, fun value w' hvalue hlt => ?_⟩
        by_contra hbad
        exact hall ⟨value, w', hvalue, hlt, hbad⟩
      obtain ⟨before', steps, throughs, hpass⟩ := exists_resumedPass hp hw.pipeline_eq hw.suspended
      rw [hpass.resumeFrom_eq, hpass.pipeline_eq, List.length_append] at hlt
      cases hsteps : steps with
      | nil => rw [hsteps] at hlt; exact absurd hlt (by simp)
      | cons first rest =>
        have hskip := runStepList_skip world ⟨event.type, payload⟩ before' steps
          (cause.retryAttempt.map (· + 1)) 0
          ⟨w', keptResults cause value noResults, noResults, st.executed, []⟩
        rw [Nat.zero_add, ← hpass.pipeline_eq, hsteps] at hskip
        simp only [hvalue, seedResumedStepResults_eq hw.pipeline_eq hw.suspended hvalue,
          hpass.resumeFrom_eq, hskip]
        refine .inl ⟨st.executed, ⟨first.args, ⟨event, keptResults cause value st.steps, noResults⟩⟩,
          ⟨first.args, ⟨⟨event.type, payload⟩, keptResults cause value noResults, noResults⟩⟩, ?_, ?_, ?_⟩
        · have hstarts := hpass.starts first rest hsteps event
            { st with world := w', steps := keptResults cause value st.steps }
          rw [← hpass.through_eq event st value w' hvalue, ← hthrough trivial] at hstarts
          simp only [PassState.logged, PassState.ctx, hw.scope_eq] at hstarts
          rw [uninterruptedRun, finalRun_executed]
          exact hstarts
        · rw [endPass_last]
          exact kept_runStepList_cons kept_executed (fun _ _ => List.prefix_refl _) world
            ⟨event.type, payload⟩ first rest _ _
            ⟨w', keptResults cause value noResults, noResults, st.executed, []⟩
        · intro heq
          have hshown := congrArg Executed.shown heq
          exact hne ⟨(congrArg (fun shown => shown.event.payload) hshown).symm,
            (congrArg PipelineCtx.steps hshown).symm⟩
  · rw [if_neg hindex] at hresume; cases hresume

/-- A run is resumed at most as often as its pipeline may suspend, and a run that has not settled can be resumed, so
every run comes to its end. It ends as the walk that nothing interrupts, each step shown the same as there, if and only
if every resume of it starts with what the run was suspended with. -/
theorem transparent_of_runs (hp : Resumable world pipeline)
    (hr : Run (resumeRun world event pipeline) (fun _ _ => True)
      (startAndRunWorkflow world event pipeline w) run) :
    run.resumed.length ≤ listSuspensions pipeline ∧
      (run.settled = none → ∃ stepIndex run', resumeRun world event pipeline run stepIndex = some run') ∧
      ∀ result, run.settled = some result →
        (Transparent world event pipeline w run ↔
          Run (resumeRun world event pipeline) (Recovers world event pipeline)
            (startAndRunWorkflow world event pipeline w) run) := by
  have hinv : RunInv world event pipeline w False run :=
    hr.invariant (runInv_startAndRunWorkflow hp False) fun _ _ _ h _ hresume =>
      h.resume hp False.elim hresume
  have hfaithful : ∀ {run : WorkflowRun W Id V E}, Run (resumeRun world event pipeline)
      (Recovers world event pipeline) (startAndRunWorkflow world event pipeline w) run →
      RunInv world event pipeline w True run := fun hr =>
    hr.invariant (runInv_startAndRunWorkflow hp True) fun _ _ _ h hrecovers hresume =>
      h.resume hp (fun _ => hrecovers) hresume
  refine ⟨hinv.resumed_le, hinv.progress, fun result hresult => ⟨fun htransparent => ?_, fun hrun => ?_⟩⟩
  · -- a run whose resumes do not all recover has diverged at the first of those that do not
    have hsplit : Run (resumeRun world event pipeline) (Recovers world event pipeline)
        (startAndRunWorkflow world event pipeline w) run ∨ Diverged world event pipeline w run := by
      clear hinv hresult htransparent
      induction hr with
      | start => exact .inl .start
      | @next before after stepIndex _ _ hresume ih =>
        rcases ih with hrun | hdiverged
        · by_cases hrecovers : Recovers world event pipeline before stepIndex
          · exact .inl (.next hrun hrecovers hresume)
          · exact .inr ((hfaithful hrun).diverged hp hrecovers hresume)
        · exact .inr (hdiverged.resume hresume)
    rcases hsplit with hrun | hdiverged
    · exact hrun
    · exact absurd htransparent hdiverged.not_transparent
  · exact ⟨result, hresult, (hfaithful hrun).settles trivial result hresult⟩

end Run

/-- A step `0` whose value is 1, waits `1` and a step `2` that needs the result under its key. -/
def onboardingWorld (key : String) : StepWorld Unit ℕ ℕ Unit where
  value args ctx _ w :=
    match args with
    | 0 => (.ok 1, w)
    | 2 => match ctx.steps key with
      | some value => (.ok (value + 1), w)
      | none => (.error (), w)
    | _ => (.ok 0, w)
  condition _ _ _ w := (.ok true, w)
  items _ _ _ w := (.ok [], w)
  triggerPayload _ := some 0
  awaited _ w := (.payload 7, w)

def repliedPipeline : List (Step ℕ) :=
  [.waitForEvent 1 "replied", .plain 2 (some "seen"), buildReturnStep 3]

/-- A step that reads the awaited event has it after the resume. -/
theorem transparent_of_runs_replied :
    ∃ run, run.settled = some .completed ∧
      Transparent (onboardingWorld "replied") ⟨"signed-up", 0⟩ repliedPipeline () run := by
  have hp : Resumable (onboardingWorld "replied") repliedPipeline := by
    refine ⟨fun step hstep => ?_, fun before args times body after h => ?_⟩
    · simp only [repliedPipeline, List.mem_cons, List.not_mem_nil, or_false] at hstep
      rcases hstep with rfl | rfl | rfl
      · trivial
      · rfl
      · rfl
    · have hmem : Step.retry args times body ∈ repliedPipeline := by
        rw [h]; exact List.mem_append_right _ (List.mem_cons_self ..)
      simp [repliedPipeline, buildReturnStep] at hmem
  have hrecovers : Recovers (onboardingWorld "replied") ⟨"signed-up", 0⟩ repliedPipeline
      (startAndRunWorkflow (onboardingWorld "replied") ⟨"signed-up", 0⟩ repliedPipeline ()) 0 := by
    intro row hrow
    obtain rfl : (⟨0, .waitingForEvent "replied"⟩ : SuspensionEvent) = row := Option.some.inj hrow
    refine ⟨0, rfl, fun value w hvalue _ => ⟨rfl, ?_⟩⟩
    cases hvalue
    rfl
  have hresume : resumeRun (onboardingWorld "replied") ⟨"signed-up", 0⟩ repliedPipeline
      (startAndRunWorkflow (onboardingWorld "replied") ⟨"signed-up", 0⟩ repliedPipeline ()) 0 =
        some (resumeRow (onboardingWorld "replied") ⟨"signed-up", 0⟩ repliedPipeline
          (startAndRunWorkflow (onboardingWorld "replied") ⟨"signed-up", 0⟩ repliedPipeline ())
          ⟨0, .waitingForEvent "replied"⟩) := rfl
  exact ⟨_, rfl, ((transparent_of_runs hp (.next .start trivial hresume)).2.2 .completed rfl).2
    (.next .start hrecovers hresume)⟩

def forgettingPipeline : List (Step ℕ) :=
  [.plain 0 (some "a"), .wait 1, .plain 2 (some "b"), buildReturnStep 3]

/-- A step that reads a result of before the wait does not find it: the run fails, and it completes where the wait
returns at once. -/
theorem forgotten_result :
    ¬ ∀ run, Run (resumeRun (onboardingWorld "a") ⟨"signed-up", 0⟩ forgettingPipeline) (fun _ _ => True)
      (startAndRunWorkflow (onboardingWorld "a") ⟨"signed-up", 0⟩ forgettingPipeline ()) run →
      ∀ result, run.settled = some result →
        Transparent (onboardingWorld "a") ⟨"signed-up", 0⟩ forgettingPipeline () run := by
  intro hall
  obtain ⟨run, hr, hp⟩ := exists_run_of_exec
    (resumeRun (onboardingWorld "a") ⟨"signed-up", 0⟩ forgettingPipeline)
    (startAndRunWorkflow (onboardingWorld "a") ⟨"signed-up", 0⟩ forgettingPipeline ()) [1]
    (fun run => match run.settled with
      | some (.failed ..) => true
      | some .completed | none => false) (by decide +kernel)
  cases hsettled : run.settled with
  | none => simp only [hsettled] at hp; cases hp
  | some result =>
    obtain ⟨result', hsettled', heq⟩ := hall run hr result hsettled
    have hcompleted : (uninterruptedRun (onboardingWorld "a") ⟨"signed-up", 0⟩ forgettingPipeline ()).1 =
        .completed := rfl
    rw [hsettled] at hsettled'
    cases hsettled'
    rw [← heq] at hcompleted
    obtain rfl : result = .completed := hcompleted
    rw [hsettled] at hp
    cases hp

end Kumiko.Workflows
