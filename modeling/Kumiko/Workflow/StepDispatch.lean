import Kumiko.Library.History
import Kumiko.Library.Run

/-!
# The outcome of a dispatch request

`step-dispatcher/deliver-dispatch-request.ts` and `sweep-abandoned.ts` for one request. A delivery loads the
stream, sends, appends the outcome at whatever version the stream has by then and erases the payload's key.
Where no outcome is recorded past a delivery that is under way, there is at most one, and nothing is sent after
it (`outcome_once_of_run`).
-/

namespace Kumiko

open Transition History

/-! ## The stream and the phases -/

/-- Reference: `STEP_DISPATCHED_TYPE`, `STEP_DISPATCH_FAILED_TYPE`. -/
inductive DispatchOutcome where
  | dispatched
  | dispatchFailed
  deriving DecidableEq

inductive DispatchEvent where
  | requested
  | outcome (outcome : DispatchOutcome)
  deriving DecidableEq

/-- Reference: `isDispatchOutcome`. -/
def isDispatchOutcome : DispatchEvent → Bool
  | .outcome _ => true
  | .requested => false

/-- What is read of the payload. Reference: `dispatchRequestedPayloadSchema`, `readPayloadFields`,
`buildDispatchSpec`. -/
inductive PayloadRead where
  | ready
  | invalid
  | unreadable
  | erased
  deriving DecidableEq

/-- Reference: `DeliveryResult`. -/
inductive DeliveryResult where
  | ok
  | failed (retryable : Bool)

/-- Before which statement a delivery or a sweep of the request is. -/
inductive DispatchPhase where
  | load (finalAttempt : Bool)
  | readPayload (finalAttempt : Bool)
  | send (finalAttempt : Bool)
  | record (finalAttempt : Bool) (outcome : DispatchOutcome)
  | erase (finalAttempt : Bool)
  /-- The outcome was there already. -/
  | repeatErase
  | abortLoad
  | abortRecord
  | abortErase
  /-- The final attempt has no outcome to record. -/
  | giveUp
  | closeLoad
  | closeRecord (version : ℕ)
  | closeErase

inductive DispatchEffect where
  | sent
  | recorded
  | gaveUp
  | erased
  deriving DecidableEq

/-- What a statement does: the events it appends, what is seen of it, and where it goes on. -/
structure DispatchMove where
  phase : Option DispatchPhase
  appended : List DispatchEvent
  effects : List DispatchEffect

namespace DispatchMove

def goto (phase : DispatchPhase) : DispatchMove := ⟨some phase, [], []⟩

def done : DispatchMove := ⟨none, [], []⟩

/-- Reference: `createOutcomeRecorder`, before its erase. -/
def recordOutcome (outcome : DispatchOutcome) (phase : DispatchPhase) : DispatchMove :=
  ⟨some phase, [.outcome outcome], [.recorded]⟩

/-- Reference: `eraseDispatchKey`. -/
def eraseKey : DispatchMove := ⟨none, [], [.erased]⟩

end DispatchMove

namespace DispatchPhase

open DispatchMove

/-- The next statement. An append reads the version of the stream itself, unless it is pinned. Reference:
`deliverDispatchRequest`, `abortOnFinalAttempt`, `closeAbandonedDispatch`. -/
def advance (stream : List DispatchEvent) : DispatchPhase → Option DispatchMove
  | load finalAttempt =>
    if stream.any isDispatchOutcome then some (goto repeatErase)
    else if .requested ∈ stream then some (goto (readPayload finalAttempt))
    else some done
  | record finalAttempt outcome => some (recordOutcome outcome (erase finalAttempt))
  | erase _ | repeatErase | abortErase | closeErase => some eraseKey
  | abortLoad => some (goto (if stream.any isDispatchOutcome then abortErase else abortRecord))
  | abortRecord => some (recordOutcome .dispatchFailed abortErase)
  | giveUp => some ⟨none, [], [.gaveUp, .erased]⟩
  | closeLoad => some (goto (if stream.any isDispatchOutcome then closeErase else closeRecord stream.length))
  | closeRecord version =>
    if stream.length = version then some (recordOutcome .dispatchFailed closeErase) else some done
  | readPayload _ | send _ => none

/-- Reference: `deliverRequested`, before it sends. -/
def read (result : PayloadRead) : DispatchPhase → Option DispatchMove
  | readPayload finalAttempt =>
    some (goto (if result = .ready then send finalAttempt else record finalAttempt .dispatchFailed))
  | _ => none

/-- Reference: `sendDispatch`, and what `deliverRequested` makes of its result. -/
def sendResult (result : DeliveryResult) : DispatchPhase → Option DispatchMove
  | send finalAttempt =>
    match result with
    | .ok => some ⟨some (record finalAttempt .dispatched), [], [.sent]⟩
    | .failed retryable =>
      if retryable && !finalAttempt then some ⟨none, [], [.sent]⟩
      else some ⟨some (record finalAttempt .dispatchFailed), [], [.sent]⟩
  | _ => none

/-- The statement throws. Reference: the handlers of `deliverDispatchRequest` and `abortOnFinalAttempt`. -/
def throws : DispatchPhase → Option DispatchMove
  | readPayload finalAttempt | record finalAttempt _ | erase finalAttempt =>
    some (if finalAttempt then goto abortLoad else done)
  | abortLoad | abortRecord | abortErase => some (goto giveUp)
  | giveUp => some ⟨none, [], [.gaveUp]⟩
  | load _ | repeatErase | closeLoad | closeRecord _ | closeErase => some done
  | send _ => none

end DispatchPhase

/-- The stream of the request, the deliveries and sweeps, and what was seen of them. -/
structure DispatchStore (n : ℕ) where
  stream : List DispatchEvent
  phases : Fin n → Option DispatchPhase
  effects : List DispatchEffect

inductive StepDispatchAct (n : ℕ) where
  | request
  /-- A run of the job, perhaps beside another one. -/
  | deliver (k : Fin n) (finalAttempt : Bool)
  | sweep (k : Fin n)
  | advance (k : Fin n)
  | read (k : Fin n) (result : PayloadRead)
  | send (k : Fin n) (result : DeliveryResult)
  | throw (k : Fin n)
  | crash (k : Fin n)

namespace DispatchStore

variable {n : ℕ} (s : DispatchStore n)

def initial : DispatchStore n := ⟨[], fun _ => none, []⟩

def setPhase (k : Fin n) (phase : Option DispatchPhase) : DispatchStore n :=
  { s with phases := Function.update s.phases k phase }

def apply (k : Fin n) (move : DispatchMove) : DispatchStore n :=
  { s.setPhase k move.phase with stream := s.stream ++ move.appended, effects := s.effects ++ move.effects }

def start (k : Fin n) (phase : DispatchPhase) : Option (DispatchStore n) :=
  if (s.phases k).isSome then none else some (s.setPhase k (some phase))

/-- Fields that are not encrypted are read when the key is erased, too. -/
def step : StepDispatchAct n → Option (DispatchStore n)
  | .request => if s.stream = [] then some { s with stream := [.requested] } else none
  | .deliver k finalAttempt => s.start k (.load finalAttempt)
  | .sweep k =>
    if .requested ∈ s.stream ∧ ¬s.stream.any isDispatchOutcome then s.start k .closeLoad else none
  | .advance k => ((s.phases k).bind (·.advance s.stream)).map (s.apply k)
  | .read k result =>
    if result = .erased ∧ .erased ∉ s.effects then none
    else ((s.phases k).bind (·.read result)).map (s.apply k)
  | .send k result => ((s.phases k).bind (·.sendResult result)).map (s.apply k)
  | .throw k => ((s.phases k).bind (·.throws)).map (s.apply k)
  | .crash k => some (s.setPhase k none)

end DispatchStore

/-! ## What every run maintains -/

/-- A delivery that has found no outcome and is before its own. -/
def DispatchPhase.UnderWay : DispatchPhase → Prop
  | .readPayload _ | .send _ | .record .. | .abortRecord => True
  | _ => False

instance : (phase : DispatchPhase) → Decidable phase.UnderWay
  | .readPayload _ => isTrue trivial
  | .send _ => isTrue trivial
  | .record .. => isTrue trivial
  | .abortRecord => isTrue trivial
  | .load _ => isFalse id
  | .erase _ => isFalse id
  | .repeatErase => isFalse id
  | .abortLoad => isFalse id
  | .abortErase => isFalse id
  | .giveUp => isFalse id
  | .closeLoad => isFalse id
  | .closeRecord _ => isFalse id
  | .closeErase => isFalse id

/-- What a phase has read of the stream. -/
def DispatchPhase.Ok (stream : List DispatchEvent) : DispatchPhase → Prop
  | .readPayload _ | .send _ | .record .. | .abortRecord => ¬stream.any isDispatchOutcome
  | .erase _ | .repeatErase | .abortErase | .closeErase => stream.any isDispatchOutcome
  | .closeRecord version => version ≤ stream.length ∧ ¬(stream.take version).any isDispatchOutcome
  | .load _ | .abortLoad | .giveUp | .closeLoad => True

/-- Nothing is sent or recorded after an outcome, and the key is erased after one or after a final attempt that gave
up. -/
def DispatchEffect.Allowed (before : List DispatchEffect) : DispatchEffect → Prop
  | .sent | .recorded => .recorded ∉ before
  | .erased => .recorded ∈ before ∨ .gaveUp ∈ before
  | .gaveUp => True

namespace DispatchStore

variable {n : ℕ}

/-- No outcome is recorded while another delivery is under way. -/
def RecordsAlone (s : DispatchStore n) : StepDispatchAct n → Prop
  | .advance k => ∀ move, (s.phases k).bind (·.advance s.stream) = some move → move.appended ≠ [] →
      ∀ k' phase, k' ≠ k → s.phases k' = some phase → ¬phase.UnderWay
  | _ => True

structure DispatchInv (s : DispatchStore n) : Prop where
  one : s.stream.countP isDispatchOutcome ≤ 1
  recorded : .recorded ∈ s.effects ↔ s.stream.any isDispatchOutcome
  along : Along DispatchEffect.Allowed s.effects
  phases : ∀ k phase, s.phases k = some phase → phase.Ok s.stream

end DispatchStore

/-! ## Steps -/

section
variable {stream more : List DispatchEvent} {phase : DispatchPhase}

theorem any_append_left (h : stream.any isDispatchOutcome) : (stream ++ more).any isDispatchOutcome := by
  rw [List.any_append, h, Bool.true_or]

/-- What was read of the stream is read of it still when it has grown, unless the delivery is under way. -/
theorem DispatchPhase.Ok.append (h : phase.Ok stream) (hfree : ¬phase.UnderWay) : phase.Ok (stream ++ more) := by
  cases phase with
  | readPayload finalAttempt => exact absurd trivial hfree
  | send finalAttempt => exact absurd trivial hfree
  | record finalAttempt outcome => exact absurd trivial hfree
  | abortRecord => exact absurd trivial hfree
  | erase finalAttempt => exact any_append_left h
  | repeatErase => exact any_append_left h
  | abortErase => exact any_append_left h
  | closeErase => exact any_append_left h
  | closeRecord version =>
    obtain ⟨hle, hnone⟩ := h
    refine ⟨?_, ?_⟩
    · rw [List.length_append]
      omega
    · rwa [List.take_append_of_le_length hle]
  | load finalAttempt => trivial
  | abortLoad => trivial
  | giveUp => trivial
  | closeLoad => trivial

end

namespace DispatchStore

variable {n : ℕ} {s s' : DispatchStore n} {k : Fin n} {phase : DispatchPhase} {move : DispatchMove}

/-- A phase is kept where it is right for the stream. -/
theorem DispatchInv.setPhase {phase' : Option DispatchPhase} (h : DispatchInv s)
    (hok : ∀ p, phase' = some p → p.Ok s.stream) : DispatchInv (s.setPhase k phase') := by
  refine ⟨h.one, h.recorded, h.along, fun k' p hp => ?_⟩
  have hp : Function.update s.phases k phase' k' = some p := hp
  rcases eq_or_ne k' k with rfl | hne
  · rw [Function.update_self] at hp
    exact hok p hp
  · rw [Function.update_of_ne hne] at hp
    exact h.phases k' p hp

/-- A move that appends nothing. -/
theorem DispatchInv.apply {phase' : Option DispatchPhase} {effects : List DispatchEffect} (h : DispatchInv s)
    (hrecorded : .recorded ∉ effects) (halong : Along DispatchEffect.Allowed (s.effects ++ effects))
    (hok : ∀ p, phase' = some p → p.Ok s.stream) : DispatchInv (s.apply k ⟨phase', [], effects⟩) := by
  have hset := h.setPhase (k := k) hok
  refine ⟨?_, ?_, halong, fun k' p hp => ?_⟩
  · show (s.stream ++ []).countP isDispatchOutcome ≤ 1
    rw [List.append_nil]
    exact h.one
  · show .recorded ∈ s.effects ++ effects ↔ (s.stream ++ []).any isDispatchOutcome
    rw [List.append_nil, ← h.recorded, List.mem_append]
    exact ⟨fun hmem => hmem.resolve_right hrecorded, .inl⟩
  · show p.Ok (s.stream ++ [])
    rw [List.append_nil]
    exact hset.phases k' p hp

theorem DispatchInv.goto {phase' : DispatchPhase} (h : DispatchInv s) (hok : phase'.Ok s.stream) :
    DispatchInv (s.apply k (.goto phase')) :=
  h.apply List.not_mem_nil (by rw [List.append_nil]; exact h.along) fun p hp => by cases hp; exact hok

theorem DispatchInv.done (h : DispatchInv s) : DispatchInv (s.apply k .done) :=
  h.apply List.not_mem_nil (by rw [List.append_nil]; exact h.along) fun p hp => nomatch hp

/-- The key is erased where an outcome is there. -/
theorem DispatchInv.eraseKey (h : DispatchInv s) (houtcome : s.stream.any isDispatchOutcome) :
    DispatchInv (s.apply k .eraseKey) :=
  h.apply (by decide) (along_concat.2 ⟨h.along, .inl (h.recorded.2 houtcome)⟩) fun p hp => nomatch hp

/-- An outcome is recorded where none is there, and no other delivery is under way. -/
theorem DispatchInv.recordOutcome {outcome : DispatchOutcome} {phase' : DispatchPhase} (h : DispatchInv s)
    (hnone : ¬s.stream.any isDispatchOutcome)
    (halone : ∀ k' p, k' ≠ k → s.phases k' = some p → ¬p.UnderWay)
    (hok : ∀ stream : List DispatchEvent, stream.any isDispatchOutcome → phase'.Ok stream) :
    DispatchInv (s.apply k (.recordOutcome outcome phase')) := by
  have houtcome : (s.stream ++ [DispatchEvent.outcome outcome]).any isDispatchOutcome := by
    rw [List.any_append]
    exact Bool.or_true _
  refine ⟨?_, ?_, along_concat.2 ⟨h.along, fun hmem => hnone (h.recorded.1 hmem)⟩, fun k' p hp => ?_⟩
  · show (s.stream ++ [DispatchEvent.outcome outcome]).countP isDispatchOutcome ≤ 1
    have hzero : s.stream.countP isDispatchOutcome = 0 :=
      List.countP_eq_zero.2 fun e he hout => hnone (List.any_eq_true.2 ⟨e, he, hout⟩)
    rw [List.countP_append, hzero, Nat.zero_add]
    exact List.countP_le_length
  · exact ⟨fun _ => houtcome, fun _ => List.mem_append.2 (.inr (.head _))⟩
  · have hp : Function.update s.phases k (some phase') k' = some p := hp
    rcases eq_or_ne k' k with rfl | hne
    · rw [Function.update_self] at hp
      cases hp
      exact hok _ houtcome
    · rw [Function.update_of_ne hne] at hp
      exact (h.phases k' p hp).append (halone k' p hne hp)

/-- A statement of a delivery or a sweep. -/
theorem DispatchInv.advance (h : DispatchInv s) (hphase : s.phases k = some phase) (hok : s.RecordsAlone (.advance k))
    (hs : phase.advance s.stream = some move) : DispatchInv (s.apply k move) := by
  have hread := h.phases k phase hphase
  have halone : move.appended ≠ [] → ∀ k' p, k' ≠ k → s.phases k' = some p → ¬p.UnderWay :=
    hok move (by rw [hphase]; exact hs)
  cases phase with
  | load finalAttempt =>
    rw [DispatchPhase.advance] at hs
    split at hs
    · next houtcome =>
      cases hs
      exact h.goto houtcome
    · next hnone =>
      split at hs
      · cases hs
        exact h.goto hnone
      · cases hs
        exact h.done
  | readPayload finalAttempt => cases hs
  | send finalAttempt => cases hs
  | record finalAttempt outcome =>
    cases hs
    exact h.recordOutcome hread (halone (List.cons_ne_nil _ _)) fun _ houtcome => houtcome
  | erase finalAttempt =>
    cases hs
    exact h.eraseKey hread
  | repeatErase =>
    cases hs
    exact h.eraseKey hread
  | abortLoad =>
    cases hs
    split
    · next houtcome => exact h.goto houtcome
    · next hnone => exact h.goto hnone
  | abortRecord =>
    cases hs
    exact h.recordOutcome hread (halone (List.cons_ne_nil _ _)) fun _ houtcome => houtcome
  | abortErase =>
    cases hs
    exact h.eraseKey hread
  | giveUp =>
    cases hs
    refine h.apply (by decide) ?_ fun p hp => nomatch hp
    have hgave : Along DispatchEffect.Allowed (s.effects ++ [.gaveUp]) := along_concat.2 ⟨h.along, trivial⟩
    have hlast : (.gaveUp : DispatchEffect) ∈ s.effects ++ [.gaveUp] := List.mem_append.2 (.inr (.head _))
    have hallowed : DispatchEffect.Allowed (s.effects ++ [.gaveUp]) .erased := .inr hlast
    have herased := along_concat.2 ⟨hgave, hallowed⟩
    rwa [List.append_assoc] at herased
  | closeLoad =>
    cases hs
    split
    · next houtcome => exact h.goto houtcome
    · next hnone =>
      refine h.goto ⟨Nat.le_refl _, ?_⟩
      rwa [List.take_length]
  | closeRecord version =>
    rw [DispatchPhase.advance] at hs
    split at hs
    · next hversion =>
      cases hs
      -- The append is pinned to the version that was loaded.
      have hnone : ¬s.stream.any isDispatchOutcome := by
        have hread := hread.2
        rwa [← hversion, List.take_length] at hread
      exact h.recordOutcome hnone (halone (List.cons_ne_nil _ _)) fun _ houtcome => houtcome
    · cases hs
      exact h.done
  | closeErase =>
    cases hs
    exact h.eraseKey hread

theorem DispatchInv.read {result : PayloadRead} (h : DispatchInv s) (hphase : s.phases k = some phase)
    (hs : phase.read result = some move) : DispatchInv (s.apply k move) := by
  have hread := h.phases k phase hphase
  cases phase with
  | readPayload finalAttempt =>
    cases hs
    split
    · exact h.goto hread
    · exact h.goto hread
  | _ => cases hs

/-- What was sent is to be recorded. -/
theorem DispatchInv.send {result : DeliveryResult} (h : DispatchInv s) (hphase : s.phases k = some phase)
    (hs : phase.sendResult result = some move) : DispatchInv (s.apply k move) := by
  have hread := h.phases k phase hphase
  cases phase with
  | send finalAttempt =>
    have hnone : (.recorded : DispatchEffect) ∉ s.effects := fun hmem => hread (h.recorded.1 hmem)
    have halong : Along DispatchEffect.Allowed (s.effects ++ [.sent]) := along_concat.2 ⟨h.along, hnone⟩
    cases result with
    | ok =>
      cases hs
      refine h.apply (by decide) halong fun p hp => ?_
      cases hp
      exact hread
    | failed retryable =>
      simp only [DispatchPhase.sendResult] at hs
      split at hs
      · cases hs
        exact h.apply (by decide) halong fun p hp => nomatch hp
      · cases hs
        refine h.apply (by decide) halong fun p hp => ?_
        cases hp
        exact hread
  | _ => cases hs

/-- A statement that throws ends its delivery. -/
theorem DispatchInv.throws (h : DispatchInv s) (hs : phase.throws = some move) : DispatchInv (s.apply k move) := by
  have habort : ∀ finalAttempt : Bool,
      DispatchInv (s.apply k (if finalAttempt then .goto .abortLoad else .done)) := by
    intro finalAttempt
    cases finalAttempt with
    | true => exact h.goto trivial
    | false => exact h.done
  cases phase with
  | readPayload finalAttempt => cases hs; exact habort finalAttempt
  | record finalAttempt outcome => cases hs; exact habort finalAttempt
  | erase finalAttempt => cases hs; exact habort finalAttempt
  | abortLoad => cases hs; exact h.goto trivial
  | abortRecord => cases hs; exact h.goto trivial
  | abortErase => cases hs; exact h.goto trivial
  | giveUp =>
    cases hs
    exact h.apply (by decide) (along_concat.2 ⟨h.along, trivial⟩) fun p hp => nomatch hp
  | load finalAttempt => cases hs; exact h.done
  | repeatErase => cases hs; exact h.done
  | closeLoad => cases hs; exact h.done
  | closeRecord version => cases hs; exact h.done
  | closeErase => cases hs; exact h.done
  | send finalAttempt => cases hs

theorem DispatchInv.start (h : DispatchInv s) (hok : phase.Ok s.stream) (hs : s.start k phase = some s') :
    DispatchInv s' := by
  unfold DispatchStore.start at hs
  split at hs
  · cases hs
  · cases hs
    exact h.setPhase fun p hp => by cases hp; exact hok

/-- Every step that records alone keeps one outcome at most. -/
theorem DispatchInv.step {a : StepDispatchAct n} (h : DispatchInv s) (hok : s.RecordsAlone a) (hs : s.step a = some s') :
    DispatchInv s' := by
  cases a with
  | request =>
    rw [DispatchStore.step] at hs
    split at hs
    · next hempty =>
      cases hs
      obtain ⟨-, hrecorded, halong, hphases⟩ := h
      rw [hempty] at hrecorded hphases
      refine ⟨Nat.zero_le _, hrecorded, halong, fun k p hp => ?_⟩
      have hold := hphases k p hp
      cases p with
      | closeRecord version =>
        obtain ⟨hle, -⟩ := hold
        obtain rfl := Nat.le_zero.1 hle
        exact ⟨Nat.zero_le _, Bool.false_ne_true⟩
      | _ => exact hold
    · cases hs
  | deliver k finalAttempt =>
    have hok : DispatchPhase.Ok s.stream (.load finalAttempt) := trivial
    exact h.start hok hs
  | sweep k =>
    rw [DispatchStore.step] at hs
    split at hs
    · have hok : DispatchPhase.Ok s.stream .closeLoad := trivial
      exact h.start hok hs
    · cases hs
  | advance k =>
    obtain ⟨move, hmove, rfl⟩ := Option.map_eq_some_iff.1 hs
    obtain ⟨phase, hphase, hmove⟩ := Option.bind_eq_some_iff.1 hmove
    exact h.advance hphase hok hmove
  | read k result =>
    rw [DispatchStore.step] at hs
    split at hs
    · cases hs
    · obtain ⟨move, hmove, rfl⟩ := Option.map_eq_some_iff.1 hs
      obtain ⟨phase, hphase, hmove⟩ := Option.bind_eq_some_iff.1 hmove
      exact h.read hphase hmove
  | send k result =>
    obtain ⟨move, hmove, rfl⟩ := Option.map_eq_some_iff.1 hs
    obtain ⟨phase, hphase, hmove⟩ := Option.bind_eq_some_iff.1 hmove
    exact h.send hphase hmove
  | throw k =>
    obtain ⟨move, hmove, rfl⟩ := Option.map_eq_some_iff.1 hs
    obtain ⟨phase, -, hmove⟩ := Option.bind_eq_some_iff.1 hmove
    exact h.throws hmove
  | crash k =>
    cases hs
    exact h.setPhase fun p hp => nomatch hp

/-- Nothing is requested. -/
theorem dispatchInv_initial : DispatchInv (initial : DispatchStore n) :=
  ⟨Nat.zero_le _, ⟨fun h => (nomatch h), fun h => (nomatch h)⟩, along_nil, fun _ _ h => (nomatch h)⟩

/-- Where no outcome is recorded while another delivery is under way, the stream has at most one outcome, nothing is
sent after it, and the key is erased after it or after a final attempt that gave up. -/
theorem outcome_once_of_run (hr : Run DispatchStore.step RecordsAlone (initial : DispatchStore n) s) :
    s.stream.countP isDispatchOutcome ≤ 1 ∧ Along DispatchEffect.Allowed s.effects := by
  have hinv : DispatchInv s := hr.invariant dispatchInv_initial fun _ _ _ h hok hs => h.step hok hs
  exact ⟨hinv.one, hinv.along⟩

/-! ## Runs -/

/-- The condition, evaluated. -/
def recordsAloneB (s : DispatchStore n) : StepDispatchAct n → Bool
  | .advance k => ((s.phases k).bind (·.advance s.stream)).all fun move =>
      decide (move.appended = [] ∨ ∀ k', k' ≠ k → (s.phases k').all fun phase => ¬phase.UnderWay)
  | _ => true

theorem recordsAlone_of_check {a : StepDispatchAct n} (h : recordsAloneB s a = true) : s.RecordsAlone a := by
  cases a with
  | advance k =>
    intro move hmove happended k' phase hne hphase
    rw [recordsAloneB, hmove, Option.all_some] at h
    have hall := (of_decide_eq_true h).resolve_left happended k' hne
    rw [hphase, Option.all_some] at hall
    exact of_decide_eq_true hall
  | request => trivial
  | deliver k finalAttempt => trivial
  | sweep k => trivial
  | read k result => trivial
  | send k result => trivial
  | throw k => trivial
  | crash k => trivial

/-- A delivery that fails and is retried while the sweep has loaded the stream: the sweep meets a conflict. -/
theorem outcome_once_of_run_sweep : ∃ s : DispatchStore 2,
    s.effects = [.sent, .sent, .recorded, .erased] ∧ s.stream.countP isDispatchOutcome ≤ 1 ∧
      Along DispatchEffect.Allowed s.effects := by
  obtain ⟨s, hr, hs⟩ := exists_run_of_execOk DispatchStore.step recordsAloneB (initial (n := 2))
    [.request, .deliver 0 false, .advance 0, .read 0 .ready, .send 0 (.failed true), .deliver 0 true, .advance 0,
      .sweep 1, .advance 1, .read 0 .ready, .send 0 .ok, .advance 0, .advance 1, .advance 0]
    (fun s => decide (s.effects = [.sent, .sent, .recorded, .erased])) (fun s a h => recordsAlone_of_check h)
    (by decide +kernel) (by decide +kernel)
  exact ⟨s, of_decide_eq_true hs, outcome_once_of_run hr⟩

/-- A job that runs twice sends after its outcome, and records a second one. -/
theorem stalled_job_records_twice : ¬∀ s : DispatchStore 2,
    Run DispatchStore.step (fun _ _ => True) (initial (n := 2)) s →
      s.stream.countP isDispatchOutcome ≤ 1 ∧ Along DispatchEffect.Allowed s.effects := by
  intro h
  obtain ⟨s, hr, hs⟩ := exists_run_of_exec DispatchStore.step (initial (n := 2))
    [.request, .deliver 0 false, .advance 0, .deliver 1 false, .advance 1, .read 1 .ready, .read 0 .ready,
      .send 0 .ok, .advance 0, .advance 0, .send 1 .ok, .advance 1, .advance 1]
    (fun s => decide (s.stream.countP isDispatchOutcome = 2)) (by decide +kernel)
  have hone := (h s hr).1
  rw [of_decide_eq_true hs] at hone
  exact absurd hone (by decide)

end DispatchStore

end Kumiko
