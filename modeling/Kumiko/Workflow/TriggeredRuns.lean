import Kumiko.Library.Run

/-!
# The runs that triggers start

`workflow-runner/event-trigger.ts` and `runner.ts`. A delivery of a trigger event appends
`workflow.run-started`, executes the steps and appends `workflow.run-completed`, or `workflow.run-failed` for
what throws. Every append is a transaction of its own, and an inline projection may still throw after it. The
deliveries of one key write to one stream; a later one starts a run of its own on it (`retriggered_key`).
-/

namespace Kumiko

open Transition

/-! ## Workflows -/

/-- What the trigger reads of an event. Reference: `StoredEvent`. -/
structure TriggerEvent (P : Type*) where
  id : String
  tenantId : String
  aggregateId : String
  version : ℕ
  type : String
  payload : P

/-- Reference: `WorkflowDefinition.idempotencyKey`. -/
inductive WorkflowIdempotencyKey (P : Type*) where
  | literal (key : String)
  | derived (key : TriggerEvent P → String)

/-- A workflow with an event trigger. Reference: `WorkflowDefinition`. -/
structure TriggeredWorkflow (P : Type*) where
  name : String
  eventType : String
  filter : Option (TriggerEvent P → Bool)
  idempotencyKey : Option (WorkflowIdempotencyKey P)
  /-- The kinds of the steps, unless the closure that builds them throws. Reference: `buildPipelineSteps`. -/
  stepKinds : TriggerEvent P → Option (List String)
  definitionFingerprint : String

/-- Reference: `TriggerEventRef`. -/
structure TriggerEventRef where
  eventId : String
  aggregateId : String
  version : ℕ

/-- Reference: `WorkflowRunStartedPayload`. -/
structure WorkflowRunStarted where
  workflowName : String
  triggerEventType : String
  triggerEventRef : TriggerEventRef
  definitionFingerprint : String
  idempotencyKey : Option String

/-- Reference: `WorkflowRunFailedPayload`. -/
structure WorkflowRunFailed where
  workflowName : String
  stepIndex : ℕ
  error : String

/-- An event of a run: of its life, or of a step or a resume. -/
inductive RunStreamEvent where
  | runStarted (payload : WorkflowRunStarted)
  | ofStep (type : String)
  | runCompleted (workflowName : String) (stepIndex : ℕ)
  | runFailed (payload : WorkflowRunFailed)

/-- The place of an event in the life of a run. -/
def RunStreamEvent.rank : RunStreamEvent → ℕ
  | runStarted _ => 0
  | ofStep _ => 1
  | runCompleted .. => 2
  | runFailed _ => 3

/-- Events of steps come in any number; of the others one at most comes, in its place. -/
def RunStreamEvent.Before (e e' : RunStreamEvent) : Prop := e.rank < e'.rank ∨ e.rank = 1 ∧ e'.rank = 1

/-- What a delivery catches. -/
inductive TriggerError where
  | workflowStep (stepIndex : ℕ) (name : Option String)
  | suspensionUnsupported (stepIndex : ℕ)
  | other (name : Option String)

/-- A failure outside the steps has no step. -/
def TriggerError.stepIndex : TriggerError → ℕ
  | workflowStep stepIndex _ | suspensionUnsupported stepIndex => stepIndex
  | other _ => 0

/-- Reference: `unwrapWorkflowStepError`. -/
def TriggerError.name : TriggerError → Option String
  | workflowStep _ name | other name => name
  | suspensionUnsupported _ => some "WorkflowSuspensionUnsupportedError"

def describeWorkflowStepError (error : TriggerError) : String :=
  "workflow step failed (" ++ error.name.getD "unknown error" ++ ")"

def RESUMABLE_STEP_KINDS : List String := ["workflow.wait", "workflow.retry", "workflow.waitForEvent"]

def isResumableSuspension (stepKinds : List String) (stepIndex : ℕ) : Bool :=
  stepKinds[stepIndex]?.getD "" ∈ RESUMABLE_STEP_KINDS

def WORKFLOW_RUN_NAMESPACE : String := "1f8a6c3e-7d2b-4a91-9e3f-5c8b2a41d6f0"

/-- Reference: `workflowRunAggregateId`, over the hash of its package. -/
def workflowRunAggregateId (uuidv5 : String → String → String) (workflowName key : String) : String :=
  uuidv5 (workflowName ++ "|" ++ key) WORKFLOW_RUN_NAMESPACE

/-! ## Deliveries -/

/-- A delivery of a trigger event to the apply function of a workflow. -/
structure TriggerDelivery (P : Type*) where
  workflow : TriggeredWorkflow P
  event : TriggerEvent P
  /-- The id of the run where there is no key. -/
  randomUUID : String

namespace TriggerDelivery

variable {P : Type*} (d : TriggerDelivery P)

/-- The event is of the trigger's type and passes its filter. -/
def Passes : Prop := d.event.type = d.workflow.eventType ∧ d.workflow.filter.all (· d.event) = true

instance : Decidable d.Passes := inferInstanceAs (Decidable (_ ∧ _))

/-- The key, which counts as none where it is empty. -/
def idempotencyKey : Option String :=
  let key := d.workflow.idempotencyKey.map fun
    | .literal key => key
    | .derived key => key d.event
  key.filter (· ≠ "")

def runId (uuidv5 : String → String → String) : String :=
  match d.idempotencyKey with
  | some key => workflowRunAggregateId uuidv5 d.workflow.name key
  | none => d.randomUUID

/-- The tenant and the id of the run. -/
def stream (uuidv5 : String → String → String) : String × String := (d.event.tenantId, d.runId uuidv5)

def startedPayload : WorkflowRunStarted where
  workflowName := d.workflow.name
  triggerEventType := d.event.type
  triggerEventRef := ⟨d.event.id, d.event.aggregateId, d.event.version⟩
  definitionFingerprint := d.workflow.definitionFingerprint
  idempotencyKey := d.idempotencyKey

def failedPayload (error : TriggerError) : WorkflowRunFailed where
  workflowName := d.workflow.name
  stepIndex := error.stepIndex
  error := describeWorkflowStepError error

end TriggerDelivery

/-- Before which statement a delivery is. -/
inductive TriggerPhase where
  | idle
  | readStarted
  | insertStarted (version : ℕ)
  | buildSteps
  | atStep (stepKinds : List String) (stepIndex : ℕ)
  /-- The step runs. -/
  | inStep (stepKinds : List String) (stepIndex : ℕ)
  | insertOfStep (stepKinds : List String) (stepIndex : ℕ) (type : String) (version : ℕ)
  | readCompleted (stepCount : ℕ)
  | insertCompleted (stepCount version : ℕ)
  | readFailed (error : TriggerError)
  | insertFailed (error : TriggerError) (version : ℕ)
  | done

/-- How a step ends. Reference: `runStepList`. -/
inductive TriggeredStepResult where
  | value
  | returned
  | suspended
  | threw (name : Option String)

/-- An event of a stream, and the delivery that has appended it; a resume is none. -/
structure RunEntry where
  event : RunStreamEvent
  delivery : Option ℕ

/-- The run streams, and the deliveries by number: what each is of, where it is, the version that it has read before its
run-started event, and the steps that it has begun. -/
structure TriggerStore (P : Type*) where
  streams : String × String → List RunEntry
  deliveries : ℕ → Option (TriggerDelivery P)
  phases : ℕ → TriggerPhase
  readings : ℕ → Option ℕ
  executed : ℕ → List ℕ

inductive TriggerAct (P : Type*) where
  | deliver (k : ℕ) (d : TriggerDelivery P)
  /-- The next statement of the delivery. -/
  | advance (k : ℕ)
  /-- The step that runs appends an event to the run. -/
  | stepAppends (k : ℕ) (type : String)
  | stepEnds (k : ℕ) (result : TriggeredStepResult)
  /-- An append throws before its insert. -/
  | throws (k : ℕ) (name : Option String)
  /-- An inline projection throws after the insert. -/
  | throwsAfter (k : ℕ) (name : Option String)
  | crash (k : ℕ)
  /-- A resume appends to a run. -/
  | resumes (stream : String × String) (event : RunStreamEvent)

namespace TriggerStore

variable {P : Type*} (uuidv5 : String → String → String) (s : TriggerStore P)

def initial : TriggerStore P := ⟨fun _ => [], fun _ => none, fun _ => .idle, fun _ => none, fun _ => []⟩

def setPhase (k : ℕ) (phase : TriggerPhase) : TriggerStore P :=
  { s with phases := Function.update s.phases k phase }

/-- The insert of an event, and where the delivery goes on. -/
def push (k : ℕ) (stream : String × String) (event : RunStreamEvent) (phase : TriggerPhase) : TriggerStore P :=
  { s.setPhase k phase with
    streams := Function.update s.streams stream (s.streams stream ++ [⟨event, some k⟩]) }

def versionConflict : Option String := some "VersionConflictError"

/-- The next statement of a delivery. Reference: `registerEventTrigger`, `startAndRunWorkflow`, `runStepList`,
`appendDomainEventCore`. -/
def advanceDelivery (k : ℕ) (d : TriggerDelivery P) : TriggerPhase → Option (TriggerStore P)
  | .readStarted =>
    let version := (s.streams (d.stream uuidv5)).length
    some { s.setPhase k (.insertStarted version) with readings := Function.update s.readings k (some version) }
  | .insertStarted version =>
    if version = (s.streams (d.stream uuidv5)).length then
      some (s.push k (d.stream uuidv5) (.runStarted d.startedPayload) .buildSteps)
    else some (s.setPhase k (.readFailed (.other versionConflict)))
  | .buildSteps =>
    match d.workflow.stepKinds d.event with
    | some stepKinds => some (s.setPhase k (.atStep stepKinds 0))
    | none => some (s.setPhase k (.readFailed (.other (some "Error"))))
  | .atStep stepKinds stepIndex =>
    if stepIndex < stepKinds.length then
      some { s.setPhase k (.inStep stepKinds stepIndex) with
        executed := Function.update s.executed k (s.executed k ++ [stepIndex]) }
    else some (s.setPhase k (.readCompleted stepKinds.length))
  | .insertOfStep stepKinds stepIndex type version =>
    -- The step may catch the conflict, as a retry does.
    if version = (s.streams (d.stream uuidv5)).length then
      some (s.push k (d.stream uuidv5) (.ofStep type) (.inStep stepKinds stepIndex))
    else some (s.setPhase k (.inStep stepKinds stepIndex))
  | .readCompleted stepCount =>
    some (s.setPhase k (.insertCompleted stepCount (s.streams (d.stream uuidv5)).length))
  | .insertCompleted stepCount version =>
    if version = (s.streams (d.stream uuidv5)).length then
      some (s.push k (d.stream uuidv5) (.runCompleted d.workflow.name stepCount) .done)
    else some (s.setPhase k (.readFailed (.other versionConflict)))
  | .readFailed error => some (s.setPhase k (.insertFailed error (s.streams (d.stream uuidv5)).length))
  | .insertFailed error version =>
    if version = (s.streams (d.stream uuidv5)).length then
      some (s.push k (d.stream uuidv5) (.runFailed (d.failedPayload error)) .done)
    else some (s.setPhase k .done)
  | .idle | .inStep .. | .done => none

/-- Where a delivery goes on when a step has ended. Reference: `startAndRunWorkflow`. -/
def afterStep (stepKinds : List String) (stepIndex stepCount : ℕ) : TriggeredStepResult → TriggerPhase
  | .value => .atStep stepKinds (stepIndex + 1)
  | .returned => .readCompleted stepCount
  | .suspended =>
    if isResumableSuspension stepKinds stepIndex then .done else .readFailed (.suspensionUnsupported stepIndex)
  | .threw name => .readFailed (.workflowStep stepIndex name)

/-- Where a delivery goes on when an append has thrown. -/
def afterThrow (name : Option String) : TriggerPhase → Option TriggerPhase
  | .readStarted | .insertStarted _ | .readCompleted _ | .insertCompleted .. => some (.readFailed (.other name))
  | .insertOfStep stepKinds stepIndex .. => some (.inStep stepKinds stepIndex)
  | .readFailed _ | .insertFailed .. => some .done
  | .idle | .buildSteps | .atStep .. | .inStep .. | .done => none

def step : TriggerAct P → Option (TriggerStore P)
  | .deliver k d =>
    if (s.deliveries k).isNone ∧ d.Passes then
      some { s.setPhase k .readStarted with deliveries := Function.update s.deliveries k (some d) }
    else none
  | .advance k => (s.deliveries k).bind fun d => s.advanceDelivery uuidv5 k d (s.phases k)
  | .stepAppends k type =>
    match s.deliveries k, s.phases k with
    | some d, .inStep stepKinds stepIndex =>
      some (s.setPhase k (.insertOfStep stepKinds stepIndex type (s.streams (d.stream uuidv5)).length))
    | _, _ => none
  | .stepEnds k result =>
    match s.phases k with
    | .inStep stepKinds stepIndex => some (s.setPhase k (afterStep stepKinds stepIndex stepKinds.length result))
    | _ => none
  | .throws k name => (afterThrow name (s.phases k)).map (s.setPhase k)
  | .throwsAfter k name =>
    match s.deliveries k, s.phases k with
    | some d, .insertStarted version =>
      if version = (s.streams (d.stream uuidv5)).length then
        some (s.push k (d.stream uuidv5) (.runStarted d.startedPayload) (.readFailed (.other name)))
      else none
    | some d, .insertCompleted stepCount version =>
      if version = (s.streams (d.stream uuidv5)).length then
        some (s.push k (d.stream uuidv5) (.runCompleted d.workflow.name stepCount) (.readFailed (.other name)))
      else none
    | _, _ => none
  | .crash k => if (s.deliveries k).isSome then some (s.setPhase k .done) else none
  | .resumes stream event =>
    if event.rank = 0 then none
    else some { s with streams := Function.update s.streams stream (s.streams stream ++ [⟨event, none⟩]) }

end TriggerStore

/-! ## What every run maintains -/

/-- The events of a stream that a delivery has appended. -/
def eventsOf (k : ℕ) (entries : List RunEntry) : List RunStreamEvent :=
  (entries.filter (·.delivery = some k)).map (·.event)

/-- What a delivery has appended and begun where it is in a phase. -/
def TriggerPhase.Ok {P : Type*} (d : TriggerDelivery P) (events : List RunStreamEvent) (executed : List ℕ) :
    TriggerPhase → Prop
  | .idle | .readStarted | .insertStarted _ => events = [] ∧ executed = []
  | .buildSteps | .atStep .. | .inStep .. | .insertOfStep .. | .readCompleted _ | .insertCompleted .. =>
    .runStarted d.startedPayload ∈ events ∧ ∀ e ∈ events, e.rank ≤ 1
  | .readFailed _ | .insertFailed .. => (executed ≠ [] → .runStarted d.startedPayload ∈ events) ∧ ∀ e ∈ events, e.rank ≤ 2
  | .done => executed ≠ [] → .runStarted d.startedPayload ∈ events

namespace TriggerStore

variable {P : Type*}

/-- The events that a delivery has appended to its run. -/
def appended (uuidv5 : String → String → String) (s : TriggerStore P) (k : ℕ) (d : TriggerDelivery P) :
    List RunStreamEvent :=
  eventsOf k (s.streams (d.stream uuidv5))

structure TriggerInv (uuidv5 : String → String → String) (s : TriggerStore P) : Prop where
  /-- A delivery appends to its run only. -/
  entries : ∀ stream entry k, entry ∈ s.streams stream → entry.delivery = some k →
    ∃ d, s.deliveries k = some d ∧ stream = d.stream uuidv5
  /-- A run-started event is where the delivery has read the version. -/
  started : ∀ stream i payload delivery, (s.streams stream)[i]? = some ⟨.runStarted payload, delivery⟩ →
    ∃ k d, delivery = some k ∧ s.deliveries k = some d ∧ payload = d.startedPayload ∧ s.readings k = some i
  ordered : ∀ k d, s.deliveries k = some d → (s.appended uuidv5 k d).Pairwise RunStreamEvent.Before
  phases : ∀ k d, s.deliveries k = some d → (s.phases k).Ok d (s.appended uuidv5 k d) (s.executed k)
  reading : ∀ k version, s.phases k = .insertStarted version → s.readings k = some version
  fresh : ∀ k, s.deliveries k = none → s.executed k = []

/-- What holds of the runs: the deliveries of a key write to one run, each starts it at most once and before its steps,
and of those that have read one version at most one does. -/
structure RunsOfTriggers (uuidv5 : String → String → String) (s : TriggerStore P) : Prop where
  keyed : ∀ k d key stream entry, s.deliveries k = some d → d.idempotencyKey = some key → entry ∈ s.streams stream →
    entry.delivery = some k → stream = (d.event.tenantId, workflowRunAggregateId uuidv5 d.workflow.name key)
  started : ∀ stream i payload delivery, (s.streams stream)[i]? = some ⟨.runStarted payload, delivery⟩ →
    ∃ k d, delivery = some k ∧ s.deliveries k = some d ∧ payload = d.startedPayload ∧ s.readings k = some i
  one : ∀ stream k k' payload payload', ⟨.runStarted payload, some k⟩ ∈ s.streams stream →
    ⟨.runStarted payload', some k'⟩ ∈ s.streams stream → s.readings k = s.readings k' → k = k'
  ordered : ∀ k d, s.deliveries k = some d → (s.appended uuidv5 k d).Pairwise RunStreamEvent.Before
  executes : ∀ k d, s.deliveries k = some d → s.executed k ≠ [] →
    .runStarted d.startedPayload ∈ s.appended uuidv5 k d

end TriggerStore

/-! ## Events of a delivery -/

section
variable {P : Type*} {d : TriggerDelivery P} {k : ℕ} {entries : List RunEntry} {event e : RunStreamEvent}
  {phase : TriggerPhase} {events : List RunStreamEvent} {executed : List ℕ}

theorem eventsOf_self : eventsOf k (entries ++ [⟨event, some k⟩]) = eventsOf k entries ++ [event] := by
  rw [eventsOf, List.filter_append, List.map_append, List.filter_singleton, decide_eq_true rfl]
  rfl

theorem eventsOf_other {delivery : Option ℕ} (hne : delivery ≠ some k) :
    eventsOf k (entries ++ [⟨event, delivery⟩]) = eventsOf k entries := by
  rw [eventsOf, List.filter_append, List.map_append, List.filter_singleton, decide_eq_false hne]
  exact List.append_nil _

theorem mem_eventsOf : e ∈ eventsOf k entries ↔ ⟨e, some k⟩ ∈ entries := by
  constructor
  · intro h
    obtain ⟨⟨e', delivery⟩, hmem, rfl⟩ := List.mem_map.1 h
    obtain ⟨hmem, hdelivery⟩ := List.mem_filter.1 hmem
    obtain rfl : delivery = some k := of_decide_eq_true hdelivery
    exact hmem
  · intro h
    exact List.mem_map.2 ⟨_, List.mem_filter.2 ⟨h, decide_eq_true rfl⟩, rfl⟩

/-- Whatever a delivery is at, the steps that it has begun come after its run-started event. -/
theorem TriggerPhase.Ok.executes (h : phase.Ok d events executed) (hexecuted : executed ≠ []) :
    .runStarted d.startedPayload ∈ events := by
  cases phase with
  | idle => exact absurd h.2 hexecuted
  | readStarted => exact absurd h.2 hexecuted
  | insertStarted version => exact absurd h.2 hexecuted
  | buildSteps => exact h.1
  | atStep stepKinds stepIndex => exact h.1
  | inStep stepKinds stepIndex => exact h.1
  | insertOfStep stepKinds stepIndex type version => exact h.1
  | readCompleted stepCount => exact h.1
  | insertCompleted stepCount version => exact h.1
  | readFailed error => exact h.1 hexecuted
  | insertFailed error version => exact h.1 hexecuted
  | done => exact h hexecuted

/-- What is caught leaves a delivery that can fail. -/
theorem TriggerPhase.Ok.failed {error : TriggerError} (h : phase.Ok d events executed)
    (hrank : ∀ e ∈ events, e.rank ≤ 2) : (TriggerPhase.readFailed error).Ok d events executed :=
  ⟨h.executes, hrank⟩

theorem TriggerPhase.Ok.done (h : phase.Ok d events executed) : TriggerPhase.done.Ok d events executed :=
  h.executes

theorem before_of_rank_lt (h : e.rank < event.rank) : e.Before event := .inl h

end

/-! ## Steps -/

namespace TriggerStore

variable {P : Type*} {uuidv5 : String → String → String} {s s' : TriggerStore P} {k : ℕ} {d : TriggerDelivery P}
  {phase : TriggerPhase} {event : RunStreamEvent} {streams : String × String → List RunEntry}
  {stream stream' : String × String}

/-- No delivery has begun. -/
theorem triggerInv_initial : TriggerInv uuidv5 (initial (P := P)) where
  entries := fun _ _ _ h => (nomatch h)
  started := fun _ _ _ _ h => (nomatch h)
  ordered := fun _ _ h => (nomatch h)
  phases := fun _ _ h => (nomatch h)
  reading := fun _ _ h => (nomatch h)
  fresh := fun _ _ => rfl

/-- A delivery that has appended nothing has no run-started event in any stream. -/
theorem TriggerInv.not_started {stream : String × String} {payload : WorkflowRunStarted} (h : TriggerInv uuidv5 s)
    (hd : s.deliveries k = some d) (hnone : s.appended uuidv5 k d = []) :
    ⟨.runStarted payload, some k⟩ ∉ s.streams stream := by
  intro hmem
  obtain ⟨d', hd', rfl⟩ := h.entries _ _ k hmem rfl
  cases hd.symm.trans hd'
  have hin : .runStarted payload ∈ s.appended uuidv5 k d := mem_eventsOf.2 hmem
  rw [hnone] at hin
  cases hin

/-- A phase is kept where it fits what its delivery has appended. -/
theorem TriggerInv.setPhase (h : TriggerInv uuidv5 s)
    (hok : ∀ d, s.deliveries k = some d → phase.Ok d (s.appended uuidv5 k d) (s.executed k))
    (hreading : ∀ version, phase = .insertStarted version → s.readings k = some version) :
    TriggerInv uuidv5 (s.setPhase k phase) := by
  refine ⟨h.entries, h.started, h.ordered, fun k' d' hd' => ?_, fun k' version hphase => ?_, h.fresh⟩
  · show (Function.update s.phases k phase k').Ok d' (s.appended uuidv5 k' d') (s.executed k')
    rcases eq_or_ne k' k with rfl | hne
    · rw [Function.update_self]
      exact hok d' hd'
    · rw [Function.update_of_ne hne]
      exact h.phases k' d' hd'
  · have hphase : Function.update s.phases k phase k' = .insertStarted version := hphase
    rcases eq_or_ne k' k with rfl | hne
    · rw [Function.update_self] at hphase
      exact hreading version hphase
    · rw [Function.update_of_ne hne] at hphase
      exact h.reading k' version hphase

/-- The version is read before anything is appended. -/
theorem TriggerInv.read {version : ℕ} (h : TriggerInv uuidv5 s) (hd : s.deliveries k = some d)
    (hphase : s.phases k = .readStarted) :
    TriggerInv uuidv5 { s.setPhase k (.insertStarted version) with
      readings := Function.update s.readings k (some version) } := by
  have hok := h.phases k d hd
  rw [hphase] at hok
  refine ⟨h.entries, fun stream i payload delivery hi => ?_, h.ordered, fun k' d' hd' => ?_, fun k' version' hphase' => ?_,
    h.fresh⟩
  · obtain ⟨k', d', rfl, hd', hpayload, hreading⟩ := h.started stream i payload delivery hi
    refine ⟨k', d', rfl, hd', hpayload, ?_⟩
    have hne : k' ≠ k := by
      rintro rfl
      exact h.not_started hd hok.1 (List.mem_of_getElem? hi)
    exact (Function.update_of_ne hne ..).trans hreading
  · show (Function.update s.phases k (.insertStarted version) k').Ok d' (s.appended uuidv5 k' d') (s.executed k')
    rcases eq_or_ne k' k with rfl | hne
    · rw [Function.update_self]
      cases hd.symm.trans hd'
      exact hok
    · rw [Function.update_of_ne hne]
      exact h.phases k' d' hd'
  · have hphase' : Function.update s.phases k (.insertStarted version) k' = .insertStarted version' := hphase'
    show Function.update s.readings k (some version) k' = some version'
    rcases eq_or_ne k' k with rfl | hne
    · rw [Function.update_self] at hphase' ⊢
      cases hphase'
      rfl
    · rw [Function.update_of_ne hne] at hphase' ⊢
      exact h.reading k' version' hphase'

/-- A step is begun. -/
theorem TriggerInv.begins {stepKinds : List String} {stepIndex : ℕ} (h : TriggerInv uuidv5 s)
    (hd : s.deliveries k = some d) (hphase : s.phases k = .atStep stepKinds stepIndex) :
    TriggerInv uuidv5 { s.setPhase k (.inStep stepKinds stepIndex) with
      executed := Function.update s.executed k (s.executed k ++ [stepIndex]) } := by
  have hok := h.phases k d hd
  rw [hphase] at hok
  refine ⟨h.entries, h.started, h.ordered, fun k' d' hd' => ?_, fun k' version hphase' => ?_, fun k' hnone => ?_⟩
  · show (Function.update s.phases k (.inStep stepKinds stepIndex) k').Ok d' (s.appended uuidv5 k' d')
      (Function.update s.executed k (s.executed k ++ [stepIndex]) k')
    rcases eq_or_ne k' k with rfl | hne
    · rw [Function.update_self, Function.update_self]
      cases hd.symm.trans hd'
      exact hok
    · rw [Function.update_of_ne hne, Function.update_of_ne hne]
      exact h.phases k' d' hd'
  · have hphase' : Function.update s.phases k (.inStep stepKinds stepIndex) k' = .insertStarted version := hphase'
    rcases eq_or_ne k' k with rfl | hne
    · rw [Function.update_self] at hphase'
      cases hphase'
    · rw [Function.update_of_ne hne] at hphase'
      exact h.reading k' version hphase'
  · have hne : k' ≠ k := by
      rintro rfl
      cases hd.symm.trans hnone
    exact (Function.update_of_ne hne ..).trans (h.fresh k' hnone)

/-- An entry at the end of one stream. -/
theorem streams_push {entry : RunEntry} :
    Function.update streams stream (streams stream ++ [entry]) stream' =
      if stream' = stream then streams stream' ++ [entry] else streams stream' := by
  rcases eq_or_ne stream' stream with rfl | hne
  · rw [Function.update_self, if_pos rfl]
  · rw [Function.update_of_ne hne, if_neg hne]

/-- An entry that is not of a delivery leaves what the delivery has appended. -/
theorem eventsOf_push_of_ne {k' : ℕ} {delivery : Option ℕ} (hne : delivery ≠ some k') :
    eventsOf k' (Function.update streams stream (streams stream ++ [⟨event, delivery⟩]) stream') =
      eventsOf k' (streams stream') := by
  rw [streams_push]
  split
  · exact eventsOf_other hne
  · rfl

/-- An entry of a stream to which one has been appended. -/
theorem mem_streams_push
    {entry entry' : RunEntry} (h : entry' ∈ Function.update streams stream (streams stream ++ [entry]) stream') :
    entry' ∈ streams stream' ∨ stream' = stream ∧ entry' = entry := by
  rw [streams_push] at h
  split at h
  · next heq =>
    rcases List.mem_append.1 h with h | h
    · exact .inl h
    · exact .inr ⟨heq, List.mem_singleton.1 h⟩
  · exact .inl h

theorem getElem?_streams_push {entry entry' : RunEntry} {i : ℕ}
    (h : (Function.update streams stream (streams stream ++ [entry]) stream')[i]? = some entry') :
    (streams stream')[i]? = some entry' ∨ stream' = stream ∧ i = (streams stream).length ∧ entry' = entry := by
  rw [streams_push] at h
  split at h
  · next heq =>
    subst heq
    rcases Nat.lt_trichotomy i (streams stream').length with hlt | rfl | hgt
    · rw [List.getElem?_append_left hlt] at h
      exact .inl h
    · rw [List.getElem?_append_right (Nat.le_refl _), Nat.sub_self] at h
      exact .inr ⟨rfl, rfl, (Option.some.inj h).symm⟩
    · rw [List.getElem?_eq_none (by rw [List.length_append]; exact hgt)] at h
      cases h
  · exact .inl h

/-- A delivery appends an event that comes after those it has appended. -/
theorem TriggerInv.push (h : TriggerInv uuidv5 s) (hd : s.deliveries k = some d)
    (hbefore : ∀ e ∈ s.appended uuidv5 k d, e.Before event)
    (hstarted : ∀ payload, event = .runStarted payload →
      payload = d.startedPayload ∧ s.readings k = some (s.streams (d.stream uuidv5)).length)
    (hok : phase.Ok d (s.appended uuidv5 k d ++ [event]) (s.executed k))
    (hreading : ∀ version, phase ≠ .insertStarted version) :
    TriggerInv uuidv5 (s.push k (d.stream uuidv5) event phase) := by
  have hself : (s.push k (d.stream uuidv5) event phase).appended uuidv5 k d = s.appended uuidv5 k d ++ [event] := by
    show eventsOf k (Function.update s.streams _ _ _) = _
    rw [Function.update_self]
    exact eventsOf_self
  have hother : ∀ k' d', k' ≠ k →
      (s.push k (d.stream uuidv5) event phase).appended uuidv5 k' d' = s.appended uuidv5 k' d' :=
    fun k' d' hne => eventsOf_push_of_ne fun heq => hne (Option.some.inj heq).symm
  refine ⟨fun stream entry k' hentry hk' => ?_, fun stream i payload delivery hi => ?_, fun k' d' hd' => ?_,
    fun k' d' hd' => ?_, fun k' version hphase => ?_, h.fresh⟩
  · rcases mem_streams_push hentry with hentry | ⟨rfl, rfl⟩
    · exact h.entries stream entry k' hentry hk'
    · obtain rfl : k = k' := Option.some.inj hk'
      exact ⟨d, hd, rfl⟩
  · rcases getElem?_streams_push hi with hi | ⟨rfl, rfl, heq⟩
    · exact h.started stream i payload delivery hi
    · obtain ⟨hevent, rfl⟩ := RunEntry.mk.inj heq
      obtain ⟨hpayload, hversion⟩ := hstarted payload hevent.symm
      exact ⟨k, d, rfl, hd, hpayload, hversion⟩
  · rcases eq_or_ne k' k with rfl | hne
    · cases hd.symm.trans hd'
      rw [hself]
      refine List.pairwise_append.2 ⟨h.ordered k' d hd, List.pairwise_singleton .., fun e he e' he' => ?_⟩
      obtain rfl := List.mem_singleton.1 he'
      exact hbefore e he
    · rw [hother k' d' hne]
      exact h.ordered k' d' hd'
  · show (Function.update s.phases k phase k').Ok d' _ (s.executed k')
    rcases eq_or_ne k' k with rfl | hne
    · cases hd.symm.trans hd'
      rw [hself, Function.update_self]
      exact hok
    · rw [hother k' d' hne, Function.update_of_ne hne]
      exact h.phases k' d' hd'
  · have hphase : Function.update s.phases k phase k' = .insertStarted version := hphase
    rcases eq_or_ne k' k with rfl | hne
    · rw [Function.update_self] at hphase
      exact absurd hphase (hreading version)
    · rw [Function.update_of_ne hne] at hphase
      exact h.reading k' version hphase

/-- The run-started event of a delivery that has appended nothing. -/
theorem TriggerInv.pushStarted {version : ℕ} (h : TriggerInv uuidv5 s) (hd : s.deliveries k = some d)
    (hphase : s.phases k = .insertStarted version) (hversion : version = (s.streams (d.stream uuidv5)).length)
    (hnext : phase = .buildSteps ∨ ∃ error, phase = .readFailed error) :
    TriggerInv uuidv5 (s.push k (d.stream uuidv5) (.runStarted d.startedPayload) phase) := by
  have hok := h.phases k d hd
  rw [hphase] at hok
  obtain ⟨hnone, hexecuted⟩ := hok
  have hread := h.reading k version hphase
  rw [hversion] at hread
  refine h.push hd (fun e he => ?_) (fun payload heq => ⟨(RunStreamEvent.runStarted.inj heq).symm, hread⟩) ?_ ?_
  · rw [hnone] at he
    cases he
  · rw [hnone, hexecuted]
    have hrank : ∀ e ∈ [RunStreamEvent.runStarted d.startedPayload], e.rank = 0 := by
      intro e he
      rw [List.mem_singleton.1 he]
      rfl
    rcases hnext with rfl | ⟨error, rfl⟩
    · exact ⟨List.mem_singleton.2 rfl, fun e he => Nat.le_trans (Nat.le_of_eq (hrank e he)) (Nat.zero_le _)⟩
    · exact ⟨fun hne => absurd rfl hne, fun e he => Nat.le_trans (Nat.le_of_eq (hrank e he)) (Nat.zero_le _)⟩
  · rcases hnext with rfl | ⟨error, rfl⟩
    · exact fun version h => nomatch h
    · exact fun version h => nomatch h

/-- The run-completed event of a delivery whose steps have ended. -/
theorem TriggerInv.pushCompleted {stepCount version : ℕ} (h : TriggerInv uuidv5 s) (hd : s.deliveries k = some d)
    (hphase : s.phases k = .insertCompleted stepCount version)
    (hnext : phase = .done ∨ ∃ error, phase = .readFailed error) :
    TriggerInv uuidv5 (s.push k (d.stream uuidv5) (.runCompleted d.workflow.name stepCount) phase) := by
  have hok := h.phases k d hd
  rw [hphase] at hok
  obtain ⟨hstarted, hrank⟩ := hok
  have hin : .runStarted d.startedPayload ∈ s.appended uuidv5 k d ++ [.runCompleted d.workflow.name stepCount] :=
    List.mem_append.2 (.inl hstarted)
  refine h.push hd (fun e he => before_of_rank_lt (Nat.lt_succ_of_le (hrank e he))) (fun payload heq => nomatch heq) ?_ ?_
  · rcases hnext with rfl | ⟨error, rfl⟩
    · exact fun _ => hin
    · refine ⟨fun _ => hin, fun e he => ?_⟩
      rcases List.mem_append.1 he with he | he
      · exact Nat.le_trans (hrank e he) (Nat.le_succ 1)
      · rw [List.mem_singleton.1 he]
        exact Nat.le_refl 2
  · rcases hnext with rfl | ⟨error, rfl⟩
    · exact fun version h => nomatch h
    · exact fun version h => nomatch h

/-- A statement of a delivery. -/
theorem TriggerInv.advance (h : TriggerInv uuidv5 s) (hd : s.deliveries k = some d) (hphase : s.phases k = phase)
    (hs : s.advanceDelivery uuidv5 k d phase = some s') : TriggerInv uuidv5 s' := by
  have hok := h.phases k d hd
  rw [hphase] at hok
  -- A phase that the state of the delivery allows, and that is not before the insert of run-started.
  have hgo : ∀ next : TriggerPhase, next.Ok d (s.appended uuidv5 k d) (s.executed k) →
      (∀ version, next ≠ .insertStarted version) → TriggerInv uuidv5 (s.setPhase k next) := by
    intro next hnext hne
    refine h.setPhase (fun d' hd' => ?_) fun version heq => absurd heq (hne version)
    cases hd.symm.trans hd'
    exact hnext
  have hfail : ∀ error, (∀ e ∈ s.appended uuidv5 k d, e.rank ≤ 2) →
      TriggerInv uuidv5 (s.setPhase k (.readFailed error)) :=
    fun error hrank => hgo _ (hok.failed hrank) fun version heq => nomatch heq
  cases phase with
  | idle => cases hs
  | readStarted =>
    cases hs
    exact h.read hd hphase
  | insertStarted version =>
    rw [advanceDelivery] at hs
    split at hs
    · next hversion =>
      cases hs
      exact h.pushStarted hd hphase hversion (.inl rfl)
    · cases hs
      exact hfail _ fun e he => by rw [hok.1] at he; cases he
  | buildSteps =>
    rw [advanceDelivery] at hs
    cases hkinds : d.workflow.stepKinds d.event with
    | some stepKinds =>
      simp only [hkinds] at hs
      cases hs
      exact hgo _ hok fun version heq => nomatch heq
    | none =>
      simp only [hkinds] at hs
      cases hs
      exact hfail _ fun e he => Nat.le_trans (hok.2 e he) (Nat.le_succ 1)
  | atStep stepKinds stepIndex =>
    rw [advanceDelivery] at hs
    split at hs
    · cases hs
      exact h.begins hd hphase
    · cases hs
      exact hgo _ hok fun version heq => nomatch heq
  | inStep stepKinds stepIndex => cases hs
  | insertOfStep stepKinds stepIndex type version =>
    rw [advanceDelivery] at hs
    split at hs
    · cases hs
      obtain ⟨hstarted, hrank⟩ := hok
      refine h.push hd (fun e he => ?_) (fun payload heq => nomatch heq) ⟨List.mem_append.2 (.inl hstarted), fun e he => ?_⟩
        fun version heq => nomatch heq
      · rcases Nat.lt_or_eq_of_le (hrank e he) with hlt | heq
        · exact .inl hlt
        · exact .inr ⟨heq, rfl⟩
      · rcases List.mem_append.1 he with he | he
        · exact hrank e he
        · rw [List.mem_singleton.1 he]
          exact Nat.le_refl 1
    · cases hs
      exact hgo _ hok fun version heq => nomatch heq
  | readCompleted stepCount =>
    cases hs
    exact hgo _ hok fun version heq => nomatch heq
  | insertCompleted stepCount version =>
    rw [advanceDelivery] at hs
    split at hs
    · cases hs
      exact h.pushCompleted hd hphase (.inl rfl)
    · cases hs
      exact hfail _ fun e he => Nat.le_trans (hok.2 e he) (Nat.le_succ 1)
  | readFailed error =>
    cases hs
    exact hgo _ hok fun version heq => nomatch heq
  | insertFailed error version =>
    rw [advanceDelivery] at hs
    split at hs
    · cases hs
      refine h.push hd (fun e he => before_of_rank_lt (Nat.lt_succ_of_le (hok.2 e he))) (fun payload heq => nomatch heq)
        (fun hne => List.mem_append.2 (.inl (hok.1 hne))) fun version heq => nomatch heq
    · cases hs
      exact hgo _ hok.done fun version heq => nomatch heq
  | done => cases hs

/-- Where a delivery goes on after a step or a throw is a phase that it may be in. -/
theorem ok_afterStep {events : List RunStreamEvent} {executed : List ℕ} {stepKinds : List String}
    {stepIndex stepCount : ℕ} (h : (TriggerPhase.inStep stepKinds stepIndex).Ok d events executed)
    (result : TriggeredStepResult) :
    (afterStep stepKinds stepIndex stepCount result).Ok d events executed ∧
      ∀ version, afterStep stepKinds stepIndex stepCount result ≠ .insertStarted version := by
  have hrank : ∀ e ∈ events, e.rank ≤ 2 := fun e he => Nat.le_trans (h.2 e he) (Nat.le_succ 1)
  cases result with
  | value => exact ⟨h, fun _ heq => nomatch heq⟩
  | returned => exact ⟨h, fun _ heq => nomatch heq⟩
  | suspended =>
    rw [afterStep]
    split
    · exact ⟨h.done, fun _ heq => nomatch heq⟩
    · exact ⟨h.failed hrank, fun _ heq => nomatch heq⟩
  | threw name => exact ⟨h.failed hrank, fun _ heq => nomatch heq⟩

/-- What throws is appended as a failure, or ends the delivery. -/
theorem ok_afterThrow {events : List RunStreamEvent} {executed : List ℕ} {name : Option String}
    {next : TriggerPhase} (h : phase.Ok d events executed) (hnext : afterThrow name phase = some next) :
    next.Ok d events executed ∧ ∀ version, next ≠ .insertStarted version := by
  cases phase with
  | readStarted =>
    cases hnext
    exact ⟨h.failed fun e he => (nomatch h.1 ▸ he), fun _ heq => nomatch heq⟩
  | insertStarted version =>
    cases hnext
    exact ⟨h.failed fun e he => (nomatch h.1 ▸ he), fun _ heq => nomatch heq⟩
  | insertOfStep stepKinds stepIndex type version =>
    cases hnext
    exact ⟨h, fun _ heq => nomatch heq⟩
  | readCompleted stepCount =>
    cases hnext
    exact ⟨h.failed fun e he => Nat.le_trans (h.2 e he) (Nat.le_succ 1), fun _ heq => nomatch heq⟩
  | insertCompleted stepCount version =>
    cases hnext
    exact ⟨h.failed fun e he => Nat.le_trans (h.2 e he) (Nat.le_succ 1), fun _ heq => nomatch heq⟩
  | readFailed error =>
    cases hnext
    exact ⟨h.done, fun _ heq => nomatch heq⟩
  | insertFailed error version =>
    cases hnext
    exact ⟨h.done, fun _ heq => nomatch heq⟩
  | idle => cases hnext
  | buildSteps => cases hnext
  | atStep stepKinds stepIndex => cases hnext
  | inStep stepKinds stepIndex => cases hnext
  | done => cases hnext

/-- A delivery is known from its first statement on. -/
theorem TriggerInv.deliver (h : TriggerInv uuidv5 s) (hnone : s.deliveries k = none) :
    TriggerInv uuidv5 { s.setPhase k .readStarted with deliveries := Function.update s.deliveries k (some d) } := by
  have hkeep : ∀ k' d', s.deliveries k' = some d' → Function.update s.deliveries k (some d) k' = some d' := by
    intro k' d' hd'
    have hne : k' ≠ k := by
      rintro rfl
      cases hnone.symm.trans hd'
    exact (Function.update_of_ne hne ..).trans hd'
  have hempty : ∀ d', s.appended uuidv5 k d' = [] := by
    refine fun d' => List.eq_nil_iff_forall_not_mem.2 fun e he => ?_
    obtain ⟨d'', hd'', -⟩ := h.entries _ _ k (mem_eventsOf.1 he) rfl
    cases hnone.symm.trans hd''
  refine ⟨fun stream entry k' hentry hk' => ?_, fun stream i payload delivery hi => ?_, fun k' d' hd' => ?_,
    fun k' d' hd' => ?_, fun k' version hphase => ?_, fun k' hk' => ?_⟩
  · obtain ⟨d', hd', heq⟩ := h.entries stream entry k' hentry hk'
    exact ⟨d', hkeep k' d' hd', heq⟩
  · obtain ⟨k', d', hdelivery, hd', hpayload⟩ := h.started stream i payload delivery hi
    exact ⟨k', d', hdelivery, hkeep k' d' hd', hpayload⟩
  · have hd' : Function.update s.deliveries k (some d) k' = some d' := hd'
    show (s.appended uuidv5 k' d').Pairwise RunStreamEvent.Before
    rcases eq_or_ne k' k with rfl | hne
    · rw [hempty]
      exact .nil
    · rw [Function.update_of_ne hne] at hd'
      exact h.ordered k' d' hd'
  · have hd' : Function.update s.deliveries k (some d) k' = some d' := hd'
    show (Function.update s.phases k .readStarted k').Ok d' (s.appended uuidv5 k' d') (s.executed k')
    rcases eq_or_ne k' k with rfl | hne
    · rw [Function.update_self]
      exact ⟨hempty d', h.fresh k' hnone⟩
    · rw [Function.update_of_ne hne] at hd' ⊢
      exact h.phases k' d' hd'
  · have hphase : Function.update s.phases k .readStarted k' = .insertStarted version := hphase
    rcases eq_or_ne k' k with rfl | hne
    · rw [Function.update_self] at hphase
      cases hphase
    · rw [Function.update_of_ne hne] at hphase
      exact h.reading k' version hphase
  · have hk' : Function.update s.deliveries k (some d) k' = none := hk'
    rcases eq_or_ne k' k with rfl | hne
    · rw [Function.update_self] at hk'
      cases hk'
    · rw [Function.update_of_ne hne] at hk'
      exact h.fresh k' hk'

/-- What a resume appends is of no delivery. -/
theorem TriggerInv.resumes {stream : String × String} (h : TriggerInv uuidv5 s) (hrank : event.rank ≠ 0) :
    TriggerInv uuidv5
      { s with streams := Function.update s.streams stream (s.streams stream ++ [⟨event, none⟩]) } := by
  have hkeep : ∀ k' stream', eventsOf k' (Function.update s.streams stream (s.streams stream ++ [⟨event, none⟩]) stream') =
      eventsOf k' (s.streams stream') := fun k' stream' => eventsOf_push_of_ne (by simp)
  refine ⟨fun stream' entry k' hentry hk' => ?_, fun stream' i payload delivery hi => ?_, fun k' d' hd' => ?_,
    fun k' d' hd' => ?_, h.reading, h.fresh⟩
  · rcases mem_streams_push hentry with hentry | ⟨-, rfl⟩
    · exact h.entries stream' entry k' hentry hk'
    · cases hk'
  · rcases getElem?_streams_push hi with hi | ⟨-, -, heq⟩
    · exact h.started stream' i payload delivery hi
    · obtain ⟨rfl, -⟩ := RunEntry.mk.inj heq
      exact absurd rfl hrank
  · show (eventsOf k' (Function.update s.streams _ _ _)).Pairwise RunStreamEvent.Before
    rw [hkeep]
    exact h.ordered k' d' hd'
  · show (s.phases k').Ok d' (eventsOf k' (Function.update s.streams _ _ _)) (s.executed k')
    rw [hkeep]
    exact h.phases k' d' hd'

/-- Every step keeps the order of each delivery's events. -/
theorem TriggerInv.step {a : TriggerAct P} (h : TriggerInv uuidv5 s) (hs : s.step uuidv5 a = some s') :
    TriggerInv uuidv5 s' := by
  cases a with
  | deliver k d =>
    rw [TriggerStore.step] at hs
    split at hs
    · next hfree =>
      cases hs
      exact h.deliver (Option.isNone_iff_eq_none.1 hfree.1)
    · cases hs
  | advance k =>
    obtain ⟨d, hd, hs⟩ := Option.bind_eq_some_iff.1 hs
    exact h.advance hd rfl hs
  | stepAppends k type =>
    rw [TriggerStore.step] at hs
    split at hs
    · next d stepKinds stepIndex hd hphase =>
      cases hs
      refine h.setPhase (fun d' hd' => ?_) fun version heq => nomatch heq
      have hok := h.phases k d' hd'
      rw [hphase] at hok
      exact hok
    · cases hs
  | stepEnds k result =>
    rw [TriggerStore.step] at hs
    split at hs
    · next stepKinds stepIndex hphase =>
      cases hs
      refine h.setPhase (fun d' hd' => ?_) fun version heq => ?_
      · have hok := h.phases k d' hd'
        rw [hphase] at hok
        exact (ok_afterStep hok result).1
      · cases result with
        | suspended =>
          rw [afterStep] at heq
          split at heq
          · cases heq
          · cases heq
        | value => cases heq
        | returned => cases heq
        | threw name => cases heq
    · cases hs
  | throws k name =>
    obtain ⟨next, hnext, rfl⟩ := Option.map_eq_some_iff.1 hs
    refine h.setPhase (fun d' hd' => (ok_afterThrow (h.phases k d' hd') hnext).1) fun version heq => ?_
    subst heq
    cases hphase : s.phases k with
    | _ => rw [hphase] at hnext; cases hnext
  | throwsAfter k name =>
    rw [TriggerStore.step] at hs
    split at hs
    · next d version hd hphase =>
      split at hs
      · next hversion =>
        cases hs
        exact h.pushStarted hd hphase hversion (.inr ⟨_, rfl⟩)
      · cases hs
    · next d stepCount version hd hphase =>
      split at hs
      · cases hs
        exact h.pushCompleted hd hphase (.inr ⟨_, rfl⟩)
      · cases hs
    · cases hs
  | crash k =>
    rw [TriggerStore.step] at hs
    split at hs
    · cases hs
      exact h.setPhase (fun d' hd' => (h.phases k d' hd').done) fun version heq => nomatch heq
    · cases hs
  | resumes stream event =>
    rw [TriggerStore.step] at hs
    split at hs
    · cases hs
    · next hrank =>
      cases hs
      exact h.resumes hrank

/-- What the invariant says of the streams. -/
theorem TriggerInv.runs (h : TriggerInv uuidv5 s) : RunsOfTriggers uuidv5 s where
  keyed := fun k d key stream entry hd hkey hentry hk => by
    obtain ⟨d', hd', rfl⟩ := h.entries stream entry k hentry hk
    cases hd.symm.trans hd'
    rw [TriggerDelivery.stream, TriggerDelivery.runId, hkey]
  started := h.started
  one := fun stream k k' payload payload' hk hk' hreadings => by
    obtain ⟨i, hi⟩ := List.mem_iff_getElem?.1 hk
    obtain ⟨i', hi'⟩ := List.mem_iff_getElem?.1 hk'
    obtain ⟨_, -, heq, -, -, hread⟩ := h.started stream i payload (some k) hi
    obtain ⟨_, -, heq', -, -, hread'⟩ := h.started stream i' payload' (some k') hi'
    cases heq
    cases heq'
    -- Each has appended at the version that it has read, and a version is one entry.
    have hversion : i = i' := Option.some.inj ((hread.symm.trans hreadings).trans hread')
    rw [hversion, hi'] at hi
    exact (Option.some.inj (RunEntry.mk.inj (Option.some.inj hi)).2).symm
  ordered := h.ordered
  executes := fun k d hd hexecuted => (h.phases k d hd).executes hexecuted

/-- The runs that triggers start, whatever the deliveries are and wherever they die. -/
theorem runs_of_triggers (hr : Run (TriggerStore.step uuidv5) (fun _ _ => True) initial s) : RunsOfTriggers uuidv5 s :=
  (hr.invariant (I := TriggerInv uuidv5) triggerInv_initial fun _ _ _ h _ hs => h.step hs).runs

/-! ## Runs of one key -/

/-- One run-started event where there is any event, and nothing after the end of the run. -/
def IdempotentStart (events : List RunStreamEvent) : Prop :=
  (events = [] ∨ events.countP (·.rank = 0) = 1) ∧
    ∀ before e after, events = before ++ e :: after → 2 ≤ e.rank → after = []

def onboarding : TriggeredWorkflow String where
  name := "user-onboarding"
  eventType := "user:event:signed-up"
  filter := none
  idempotencyKey := some (.derived (·.payload))
  stepKinds := fun _ => some ["workflow.wait", "compute"]
  definitionFingerprint := "9f2c"

def signedUp (id : String) (version : ℕ) : TriggerDelivery String :=
  ⟨onboarding, ⟨id, "t1", "a1", version, "user:event:signed-up", "u1"⟩, "random"⟩

def onboardingId : String → String → String := fun _ _ => "bf8d0833-8486-54a5-9a49-a6c4495c0960"

/-- Of two deliveries at once one starts the run, which waits and is resumed. -/
theorem runs_of_triggers_overlap : ∃ s : TriggerStore String,
    (s.executed 0 = [0] ∧ s.executed 1 = []) ∧ RunsOfTriggers onboardingId s := by
  obtain ⟨s, hr, hs⟩ := exists_run_of_exec (TriggerStore.step onboardingId) initial
    [.deliver 0 (signedUp "e1" 1), .deliver 1 (signedUp "e2" 2), .advance 0, .advance 1, .advance 0, .advance 1,
      .advance 0, .advance 0, .stepAppends 0 "workflow.step.waiting", .advance 0, .stepEnds 0 .suspended, .crash 1,
      .resumes ("t1", "bf8d0833-8486-54a5-9a49-a6c4495c0960") (.ofStep "workflow.step.resumed"),
      .resumes ("t1", "bf8d0833-8486-54a5-9a49-a6c4495c0960") (.runCompleted "user-onboarding" 2)]
    (fun s => decide (s.executed 0 = [0] ∧ s.executed 1 = [])) (by decide +kernel)
  exact ⟨s, of_decide_eq_true hs, runs_of_triggers hr⟩

/-- A later delivery of a key starts a second run on the stream, after the end of the first. -/
theorem retriggered_key : ¬∀ s : TriggerStore String,
    Run (TriggerStore.step onboardingId) (fun _ _ => True) initial s → ∀ k d key, s.deliveries k = some d →
      d.idempotencyKey = some key → IdempotentStart ((s.streams (d.stream onboardingId)).map (·.event)) := by
  intro h
  obtain ⟨s, hr, hs⟩ := exists_run_of_exec (TriggerStore.step onboardingId) initial
    ([.deliver 0 (signedUp "e1" 1), .advance 0, .advance 0, .advance 0, .advance 0, .stepEnds 0 .returned, .advance 0,
      .advance 0, .deliver 1 (signedUp "e2" 2), .advance 1, .advance 1])
    (fun s => decide ((s.deliveries 0).isSome ∧ (s.deliveries 0).all (fun d => d.idempotencyKey = some "u1" ∧
      ((s.streams (d.stream onboardingId)).map (·.event)).countP (·.rank = 0) = 2))) (by decide +kernel)
  obtain ⟨hsome, hall⟩ := of_decide_eq_true hs
  obtain ⟨d, hd⟩ := Option.isSome_iff_exists.1 hsome
  rw [hd, Option.all_some] at hall
  obtain ⟨hkey, htwo⟩ := of_decide_eq_true hall
  obtain ⟨hone, -⟩ := h s hr 0 d "u1" hd hkey
  rcases hone with hnil | hone
  · rw [hnil] at htwo
    cases htwo
  · cases hone.symm.trans htwo

end TriggerStore

end Kumiko
