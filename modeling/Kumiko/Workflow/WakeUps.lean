import Kumiko.Library.KeyedRows
import Kumiko.Library.Run
import Kumiko.Workflow.EventMatch

/-!
# Events that wake a run

`workflow-runner/event-subscriber.ts`, `pending-projection.ts` and `handlers/resume-run.write.ts` over one log.
The projection keeps a row for every suspension; the subscriber sets the event and the time on the rows that
wait for it. A subscriber that is ahead of the row finds nothing to wake (`overtaken_wakeUp`); otherwise an
awaited event makes its row due, and the resume goes on with it (`woken_of_run`). Of a turn
that is rolled back, the event in progress comes again.
-/

namespace Kumiko

open Transition

/-! ## The log -/

/-- What a suspension waits for. Reference: `PendingRow`. -/
structure Suspension (m : ℕ) where
  workflow : Fin m
  stepIndex : ℕ
  retryAttempt : Option ℕ
  wakeAt : ℤ
  waitEventType : Option String
  matchExpr : Option EventMatch

/-- What an event changes in the rows of its run. -/
inductive PendingChange (m : ℕ) where
  | suspends (suspension : Suspension m)
  | resumed (stepIndex : ℕ) (retryAttempt : Option ℕ)
  /-- The run has completed or failed. -/
  | ended

structure WakeEvent (m : ℕ) where
  tenantId : String
  aggregateId : String
  type : String
  payload : EventPayload
  change : Option (PendingChange m)

namespace WakeEvent

variable {m : ℕ}

def suspension (e : WakeEvent m) : Option (Suspension m) :=
  match e.change with
  | some (.suspends suspension) => some suspension
  | _ => none

/-- The rows of the run are deleted. -/
def Settles (e : WakeEvent m) (tenantId runId : String) : Prop :=
  (e.tenantId = tenantId ∧ e.aggregateId = runId) ∧
    match e.change with
    | some (.resumed ..) | some .ended => True
    | _ => False

end WakeEvent

/-- The event is one that the suspension of a tenant waits for. -/
def Suspension.Matches {m : ℕ} (suspension : Suspension m) (tenantId : String) (e : WakeEvent m) : Prop :=
  (e.tenantId = tenantId ∧ suspension.waitEventType = some e.type) ∧
    matchExprPasses suspension.matchExpr e.payload = true

instance {m : ℕ} (suspension : Suspension m) (tenantId : String) (e : WakeEvent m) :
    Decidable (suspension.Matches tenantId e) := inferInstanceAs (Decidable (_ ∧ _))

/-- A row, and where its suspension is in the log. The trigger is the event by its place in the log, with the
subscriber that has set it. Reference: `workflowRunPendingTable`. -/
structure WaitingRow (m : ℕ) where
  tenantId : String
  runId : String
  suspension : Suspension m
  wakeAt : ℤ
  trigger : Option (ℕ × Fin m)
  position : ℕ

namespace WaitingRow

variable {m : ℕ}

def key (row : WaitingRow m) : String × String × ℕ := (row.tenantId, row.runId, row.suspension.stepIndex)

/-- Reference: `wakeupApply`. -/
def wake (x : ℕ) (j : Fin m) (now : ℤ) (row : WaitingRow m) : WaitingRow m :=
  { row with trigger := some (x, j), wakeAt := now }

end WaitingRow

/-! ## The consumers and the resumes -/

/-- Where the projection is in its event. -/
inductive ProjectionPhase where
  /-- Whether the row of the suspension carries a trigger already. -/
  | fetched (triggered : Bool)
  | applied
  deriving DecidableEq

/-- Before which statement a resume is. -/
inductive WakeResumePhase (m : ℕ) where
  | fetch (key : String × String × ℕ)
  | load (row : WaitingRow m)
  | claim (row : WaitingRow m)

/-- A resume that has committed: the suspension, the event that the resume goes on with, and how long the log was. -/
structure WakeResume where
  position : ℕ
  trigger : Option ℕ
  committedAt : ℕ
  deriving DecidableEq

/-- The log and the rows; the projection's place in the log and in its event; each subscriber's place, and the rows that
it has still to wake for its event; the resumes. -/
structure WakeStore (m n : ℕ) where
  now : ℤ
  log : List (WakeEvent m)
  rows : List (WaitingRow m)
  projected : ℕ
  projecting : Option ProjectionPhase
  woken : Fin m → ℕ
  waking : Fin m → Option (List (WaitingRow m))
  phases : Fin n → Option (WakeResumePhase m)
  resumes : List WakeResume

inductive WakeAct (m n : ℕ) where
  | tick (ms : ℕ)
  /-- An event commits that is not a resume's. -/
  | append (e : WakeEvent m)
  /-- The next statement of the projection. -/
  | project
  | projectAgain
  /-- The next statement of a subscriber. -/
  | wake (j : Fin m)
  | wakeAgain (j : Fin m)
  | dispatch (k : Fin n) (key : String × String × ℕ)
  /-- The next statement of a resume. -/
  | advance (k : Fin n)
  | rollback (k : Fin n)

/-- The events of a run. Reference: `isRunAlreadySettled`. -/
def isRunSettled {m : ℕ} (log : List (WakeEvent m)) (row : WaitingRow m) : Bool :=
  log.any fun e => (e.tenantId = row.tenantId && e.aggregateId = row.runId) && match e.change with
    | some .ended => true
    | some (.resumed stepIndex retryAttempt) =>
      stepIndex = row.suspension.stepIndex && retryAttempt = row.suspension.retryAttempt
    | _ => false

/-- Reference: `WORKFLOW_RESUMED_TYPE`. -/
def resumedEvent {m : ℕ} (row : WaitingRow m) : WakeEvent m where
  tenantId := row.tenantId
  aggregateId := row.runId
  type := "kumiko:system:workflow.step.resumed"
  payload := .object (("stepIndex", .number row.suspension.stepIndex) ::
    (row.suspension.retryAttempt.map fun attempt => ("retryAttempt", EventPayload.number attempt)).toList)
  change := some (.resumed row.suspension.stepIndex row.suspension.retryAttempt)

namespace WakeStore

variable {m n : ℕ} (awaits : Fin m → List String) (s : WakeStore m n)

def initial (now : ℤ) : WakeStore m n := ⟨now, [], [], 0, none, fun _ => 0, fun _ => none, fun _ => none, []⟩

def setPhase (k : Fin n) (phase : Option (WakeResumePhase m)) : WakeStore m n :=
  { s with phases := Function.update s.phases k phase }

/-- The row of a suspension, before anything has woken it. -/
def rowOf (e : WakeEvent m) (suspension : Suspension m) (position : ℕ) : WaitingRow m :=
  ⟨e.tenantId, e.aggregateId, suspension, suspension.wakeAt, none, position⟩

/-- The next statement of the projection on the event at its place. Reference: `upsertPending`, `deleteRunPending`. -/
def projectEvent (e : WakeEvent m) : WakeStore m n :=
  match s.projecting, e.change with
  | some .applied, _ | none, none | some (.fetched _), none =>
    { s with projected := s.projected + 1, projecting := none }
  | none, some (.suspends suspension) =>
    let row := rowOf e suspension s.projected
    let existing := KeyedRows.lookup WaitingRow.key row.key s.rows
    { s with projecting := some (.fetched (existing.any (·.trigger.isSome))) }
  | some (.fetched triggered), some (.suspends suspension) =>
    let row := rowOf e suspension s.projected
    { s with
      rows := if triggered then s.rows else KeyedRows.delete WaitingRow.key row.key s.rows ++ [row]
      projecting := some .applied }
  | none, some _ | some (.fetched _), some _ =>
    { s with
      rows := s.rows.filter fun row => ¬(row.tenantId = e.tenantId ∧ row.runId = e.aggregateId)
      projecting := some .applied }

/-- The next statement of a subscriber on the event at its place. Reference: `wakeupApply`. -/
def wakeEvent (j : Fin m) (e : WakeEvent m) : WakeStore m n :=
  match s.waking j with
  | none =>
    if e.type ∈ awaits j then
      let matching := s.rows.filter fun row => row.suspension.Matches row.tenantId e
      { s with waking := Function.update s.waking j (some matching) }
    else { s with woken := Function.update s.woken j (s.woken j + 1) }
  | some [] =>
    { s with
      woken := Function.update s.woken j (s.woken j + 1)
      waking := Function.update s.waking j none }
  | some (row :: rest) =>
    { s with
      rows := s.rows.map fun r => if r.key = row.key then r.wake (s.woken j) j s.now else r
      waking := Function.update s.waking j (some rest) }

/-- The next statement of a resume. Reference: `resumeRunHandler`. -/
def advanceResume (k : Fin n) : WakeResumePhase m → WakeStore m n
  | .fetch key => s.setPhase k ((KeyedRows.lookup WaitingRow.key key s.rows).map .load)
  | .load row => s.setPhase k (if isRunSettled s.log row then none else some (.claim row))
  | .claim row =>
    { s.setPhase k none with
      log := s.log ++ [resumedEvent row]
      resumes := s.resumes ++ [⟨row.position, row.trigger.map (·.1), s.log.length⟩] }

def step : WakeAct m n → Option (WakeStore m n)
  | .tick ms => some { s with now := s.now + ms }
  | .append e =>
    match e.change with
    | some (.resumed ..) => none
    | some (.suspends suspension) =>
      -- A step waits for an event that its workflow declares.
      if suspension.waitEventType.all (· ∈ awaits suspension.workflow) then some { s with log := s.log ++ [e] } else none
    | _ => some { s with log := s.log ++ [e] }
  | .project => s.log[s.projected]?.map s.projectEvent
  | .projectAgain => some { s with projecting := none }
  | .wake j => s.log[s.woken j]?.map (s.wakeEvent awaits j)
  | .wakeAgain j => some { s with waking := Function.update s.waking j none }
  | .dispatch k key =>
    if s.phases k = none ∧ ∃ row ∈ s.rows, row.key = key ∧ row.wakeAt < s.now then
      some (s.setPhase k (some (.fetch key)))
    else none
  | .advance k => (s.phases k).map (s.advanceResume k)
  | .rollback k => some (s.setPhase k none)

end WakeStore

/-! ## Places in the log -/

section
variable {m : ℕ} (awaits : Fin m → List String) (log : List (WakeEvent m))

/-- The suspension at one place waits for the event at another. -/
def Awaits (p q : ℕ) : Prop :=
  ∃ e suspension e', log[p]? = some e ∧ e.change = some (.suspends suspension) ∧ log[q]? = some e' ∧
    suspension.Matches e.tenantId e'

/-- The apply map of a subscriber has the event. -/
def Subscribed (j : Fin m) (q : ℕ) : Prop := ∃ e, log[q]? = some e ∧ e.type ∈ awaits j

/-- The run of a suspension is settled before a place. -/
def SettledWithin (p bound : ℕ) : Prop :=
  ∃ i e e', p < i ∧ i < bound ∧ log[p]? = some e ∧ log[i]? = some e' ∧ e'.Settles e.tenantId e.aggregateId

/-- The row is of the suspension at its place. -/
def WaitingRow.Of (row : WaitingRow m) : Prop :=
  ∃ e, log[row.position]? = some e ∧ e.change = some (.suspends row.suspension) ∧ e.tenantId = row.tenantId ∧
    e.aggregateId = row.runId

end

/-- The row that a resume has read. -/
def WakeResumePhase.row {m : ℕ} : WakeResumePhase m → Option (WaitingRow m)
  | fetch _ => none
  | load row | claim row => some row

namespace WakeStore

variable {m n : ℕ} (awaits : Fin m → List String) (s : WakeStore m n)

/-- A run suspends when its last suspension is settled, and no event comes for a suspension that is being resumed. -/
def AppendsInTime (e : WakeEvent m) : Prop :=
  (∀ suspension p e₀ suspension₀, e.change = some (.suspends suspension) → s.log[p]? = some e₀ →
    e₀.change = some (.suspends suspension₀) → e₀.tenantId = e.tenantId → e₀.aggregateId = e.aggregateId →
    SettledWithin s.log p s.log.length) ∧
  ∀ k phase row, s.phases k = some phase → phase.row = some row → ¬row.suspension.Matches row.tenantId e

/-- No subscriber is ahead of the suspensions that wait for its event, or wakes another row than the one it has found;
and a resume reads a row when the subscribers have come to the events that the row waits for. -/
def InTime : WakeAct m n → Prop
  | .append e => s.AppendsInTime e
  | .wake j =>
    (∀ p, p < s.woken j → Subscribed awaits s.log j (s.woken j) → Awaits s.log p (s.woken j) → p < s.projected) ∧
    ∀ row rest, s.waking j = some (row :: rest) → ∀ r ∈ s.rows, r.key = row.key → r.position = row.position
  | .advance k =>
    (∀ key, s.phases k = some (.fetch key) → ∀ row ∈ s.rows, row.key = key → ∀ j q, row.position < q →
      Subscribed awaits s.log j q → Awaits s.log row.position q → q < s.woken j) ∧
    ∀ row, s.phases k = some (.claim row) → s.AppendsInTime (resumedEvent row)
  | _ => True

/-- How far the events of the log are in the rows. -/
def bound : ℕ := if s.projecting = some .applied then s.projected + 1 else s.projected

/-- What the projection leaves. -/
structure RowsInv : Prop where
  projected_le : s.projected ≤ s.log.length
  projecting_lt : s.projecting ≠ none → s.projected < s.log.length
  of : ∀ row ∈ s.rows, row.Of s.log
  le : ∀ row ∈ s.rows, row.position ≤ s.projected
  unsettled : ∀ row ∈ s.rows, ¬SettledWithin s.log row.position s.bound
  /-- A suspension that is not settled has its row. -/
  there : ∀ p e suspension, s.log[p]? = some e → e.change = some (.suspends suspension) → p < s.bound →
    ¬SettledWithin s.log p (s.projected + 1) → ∃ row ∈ s.rows, row.position = p
  fetched : s.projecting = some (.fetched true) → ∃ row ∈ s.rows, row.position = s.projected
  /-- A run is settled between two suspensions. -/
  apart : ∀ p p' e e' suspension suspension', p < p' → s.log[p]? = some e → s.log[p']? = some e' →
    e.change = some (.suspends suspension) → e'.change = some (.suspends suspension') → e.tenantId = e'.tenantId →
    e.aggregateId = e'.aggregateId → SettledWithin s.log p p'

/-- What the subscribers leave. -/
structure WakeInv : Prop where
  woken_le : ∀ j, s.woken j ≤ s.log.length
  awaited : ∀ (p : ℕ) e suspension type, s.log[p]? = some e → e.change = some (.suspends suspension) →
    suspension.waitEventType = some type → type ∈ awaits suspension.workflow
  trigger : ∀ row ∈ s.rows, ∀ x j, row.trigger = some (x, j) →
    (Awaits s.log row.position x ∧ Subscribed awaits s.log j x) ∧ row.wakeAt ≤ s.now
  /-- What a subscriber has come to, the projection has come to the suspensions of. -/
  met : ∀ j q p, Subscribed awaits s.log j q → p < q → Awaits s.log p q →
    q < s.woken j ∨ q = s.woken j ∧ (s.waking j).isSome = true → p < s.projected
  /-- An event that a subscriber has been at has woken the row, or a later one has. -/
  found : ∀ row ∈ s.rows, ∀ j q, Subscribed awaits s.log j q → row.position < q → q < s.woken j →
    Awaits s.log row.position q → ∃ x j', row.trigger = some (x, j') ∧ (j' = j → q ≤ x)
  waking : ∀ j sel, s.waking j = some sel → Subscribed awaits s.log j (s.woken j) ∧
    (∀ row ∈ sel, Awaits s.log row.position (s.woken j)) ∧
    ∀ row ∈ s.rows, row.position < s.woken j → Awaits s.log row.position (s.woken j) →
      (∃ r ∈ sel, r.key = row.key) ∨ ∃ x j', row.trigger = some (x, j') ∧ (j' = j → s.woken j ≤ x)

/-- An event of the log after a suspension, for which it waits, is matched by a trigger that is one too. -/
def Answered (log : List (WakeEvent m)) (position : ℕ) (trigger : Option ℕ) (bound : ℕ) : Prop :=
  ∀ q, position < q → q < bound → Awaits log position q →
    ∃ x, trigger = some x ∧ position < x ∧ x < bound ∧ Awaits log position x

/-- What the resumes have read, and with what they have gone on. -/
structure WakeResumesInv : Prop where
  reads : ∀ k phase row, s.phases k = some phase → phase.row = some row →
    row.Of s.log ∧ Answered s.log row.position (row.trigger.map (·.1)) s.log.length
  resumes : ∀ r ∈ s.resumes, r.committedAt ≤ s.log.length ∧ Answered s.log r.position r.trigger r.committedAt

end WakeStore

/-! ## The log grows -/

section
variable {m : ℕ} {awaits : Fin m → List String} {log more : List (WakeEvent m)} {p q bound : ℕ} {j : Fin m}
  {row : WaitingRow m} {e : WakeEvent m}

theorem getElem?_of_append {i : ℕ} {e : WakeEvent m} (h : log[i]? = some e) : (log ++ more)[i]? = some e := by
  obtain ⟨hlt, -⟩ := List.getElem?_eq_some_iff.1 h
  rwa [List.getElem?_append_left hlt]

/-- What awaits an event goes on doing so as the log grows. -/
theorem Awaits.append (h : Awaits log p q) : Awaits (log ++ more) p q := by
  obtain ⟨e, suspension, e', he, hchange, he', hmatches⟩ := h
  exact ⟨e, suspension, e', getElem?_of_append he, hchange, getElem?_of_append he', hmatches⟩

theorem Awaits.of_append (h : Awaits (log ++ more) p q) (hp : p < log.length) (hq : q < log.length) : Awaits log p q := by
  obtain ⟨e, suspension, e', he, hchange, he', hmatches⟩ := h
  rw [List.getElem?_append_left hp] at he
  rw [List.getElem?_append_left hq] at he'
  exact ⟨e, suspension, e', he, hchange, he', hmatches⟩

theorem Awaits.lt (h : Awaits log p q) : p < log.length ∧ q < log.length := by
  obtain ⟨e, suspension, e', he, -, he', -⟩ := h
  exact ⟨(List.getElem?_eq_some_iff.1 he).1, (List.getElem?_eq_some_iff.1 he').1⟩

theorem Subscribed.append (h : Subscribed awaits log j q) : Subscribed awaits (log ++ more) j q := by
  obtain ⟨e, he, htype⟩ := h
  exact ⟨e, getElem?_of_append he, htype⟩

theorem Subscribed.of_append (h : Subscribed awaits (log ++ more) j q) (hq : q < log.length) :
    Subscribed awaits log j q := by
  obtain ⟨e, he, htype⟩ := h
  rw [List.getElem?_append_left hq] at he
  exact ⟨e, he, htype⟩

theorem SettledWithin.append (h : SettledWithin log p bound) : SettledWithin (log ++ more) p bound := by
  obtain ⟨i, e, e', hpi, hi, he, he', hsettles⟩ := h
  exact ⟨i, e, e', hpi, hi, getElem?_of_append he, getElem?_of_append he', hsettles⟩

theorem SettledWithin.of_append (h : SettledWithin (log ++ more) p bound) (hbound : bound ≤ log.length) :
    SettledWithin log p bound := by
  obtain ⟨i, e, e', hpi, hi, he, he', hsettles⟩ := h
  rw [List.getElem?_append_left (by omega)] at he he'
  exact ⟨i, e, e', hpi, hi, he, he', hsettles⟩

theorem SettledWithin.mono {bound' : ℕ} (h : SettledWithin log p bound) (hle : bound ≤ bound') :
    SettledWithin log p bound' := by
  obtain ⟨i, e, e', hpi, hi, hrest⟩ := h
  exact ⟨i, e, e', hpi, Nat.lt_of_lt_of_le hi hle, hrest⟩

theorem WaitingRow.Of.append (h : row.Of log) : row.Of (log ++ more) := by
  obtain ⟨e, he, hrest⟩ := h
  exact ⟨e, getElem?_of_append he, hrest⟩

theorem WaitingRow.Of.lt (h : row.Of log) : row.position < log.length := by
  obtain ⟨e, he, -⟩ := h
  exact (List.getElem?_eq_some_iff.1 he).1

/-- A row waits for the events that its suspension waits for. -/
theorem WaitingRow.Of.awaits_iff (h : row.Of log) (he : log[q]? = some e) :
    Awaits log row.position q ↔ row.suspension.Matches row.tenantId e := by
  obtain ⟨e₀, he₀, hchange, htenant, -⟩ := h
  constructor
  · rintro ⟨e₁, suspension, e', he₁, hchange', he', hmatches⟩
    cases he₀.symm.trans he₁
    cases hchange.symm.trans hchange'
    cases he.symm.trans he'
    rwa [htenant] at hmatches
  · intro hmatches
    exact ⟨e₀, row.suspension, e, he₀, hchange, he, htenant ▸ hmatches⟩

/-- What is answered stays so while no event comes that the suspension waits for. -/
theorem WakeStore.Answered.append {trigger : Option ℕ} (h : WakeStore.Answered log p trigger bound)
    (hbound : bound ≤ log.length) (hp : p < log.length) : WakeStore.Answered (log ++ more) p trigger bound := by
  intro q hpq hq hawaits
  obtain ⟨x, htrigger, hpx, hx, hx'⟩ := h q hpq hq (hawaits.of_append hp (Nat.lt_of_lt_of_le hq hbound))
  exact ⟨x, htrigger, hpx, hx, hx'.append⟩

end

namespace WakeStore

variable {m n : ℕ} {awaits : Fin m → List String} {s s' : WakeStore m n} {e : WakeEvent m} {j : Fin m} {k : Fin n}

/-! ## An event at the end of the log -/

/-- The projection is at most an event behind its rows. -/
theorem RowsInv.bound_le (h : RowsInv s) : s.bound ≤ s.log.length ∧ s.projected ≤ s.bound ∧ s.bound ≤ s.projected + 1 := by
  have hle := h.projected_le
  unfold bound
  split
  · next happlied =>
    have hlt := h.projecting_lt (by rw [happlied]; exact Option.some_ne_none _)
    omega
  · omega

section
variable {phases : Fin n → Option (WakeResumePhase m)} {resumes : List WakeResume}

/-- An event that is appended in time. -/
theorem RowsInv.append (h : RowsInv s) (hok : s.AppendsInTime e) :
    RowsInv { s with log := s.log ++ [e], phases, resumes } := by
  have hlen : (s.log ++ [e]).length = s.log.length + 1 := List.length_append
  obtain ⟨hbound, -, -⟩ := h.bound_le
  refine ⟨?_, fun hne => ?_, fun row hrow => (h.of row hrow).append, h.le, fun row hrow hsettled => ?_,
    fun p e₁ suspension he₁ hchange hp hnot => ?_, h.fetched, ?_⟩
  · show s.projected ≤ (s.log ++ [e]).length
    have hle := h.projected_le
    omega
  · show s.projected < (s.log ++ [e]).length
    have hlt := h.projecting_lt hne
    omega
  · exact h.unsettled row hrow (hsettled.of_append hbound)
  · have hp : p < s.bound := hp
    have he₁ : (s.log ++ [e])[p]? = some e₁ := he₁
    rw [List.getElem?_append_left (Nat.lt_of_lt_of_le hp hbound)] at he₁
    exact h.there p e₁ suspension he₁ hchange hp fun hsettled => hnot hsettled.append
  · intro p p' e₁ e₂ suspension suspension' hlt he₁ he₂ hchange hchange' htenant hrun
    have he₁ : (s.log ++ [e])[p]? = some e₁ := he₁
    have he₂ : (s.log ++ [e])[p']? = some e₂ := he₂
    have hp' : p' < (s.log ++ [e]).length := (List.getElem?_eq_some_iff.1 he₂).1
    rw [List.getElem?_append_left (by omega)] at he₁
    rcases Nat.lt_or_ge p' s.log.length with hin | hlast
    · rw [List.getElem?_append_left hin] at he₂
      exact (h.apart p p' e₁ e₂ suspension suspension' hlt he₁ he₂ hchange hchange' htenant hrun).append
    · -- The new event suspends the run.
      obtain rfl : p' = s.log.length := by omega
      rw [List.getElem?_append_right (Nat.le_refl _), Nat.sub_self] at he₂
      cases he₂
      exact (hok.1 suspension' p e₁ suspension hchange' he₁ hchange htenant hrun).append

theorem WakeInv.append (h : WakeInv awaits s)
    (hawaited : ∀ suspension type, e.change = some (.suspends suspension) → suspension.waitEventType = some type →
      type ∈ awaits suspension.workflow) :
    WakeInv awaits { s with log := s.log ++ [e], phases, resumes } := by
  have hlen : (s.log ++ [e]).length = s.log.length + 1 := List.length_append
  refine ⟨fun j => ?_, fun p e₁ suspension type he₁ hchange htype => ?_, fun row hrow x j hx => ?_,
    fun j q p hsub hpq hawaits hq => ?_, fun row hrow j q hsub hpq hq hawaits => ?_, fun j sel hsel => ?_⟩
  · show s.woken j ≤ (s.log ++ [e]).length
    exact Nat.le_trans (h.woken_le j) (by omega)
  · have he₁ : (s.log ++ [e])[p]? = some e₁ := he₁
    rcases Nat.lt_or_ge p s.log.length with hin | hlast
    · rw [List.getElem?_append_left hin] at he₁
      exact h.awaited p e₁ suspension type he₁ hchange htype
    · have hp : p < (s.log ++ [e]).length := (List.getElem?_eq_some_iff.1 he₁).1
      obtain rfl : p = s.log.length := by omega
      rw [List.getElem?_append_right (Nat.le_refl _), Nat.sub_self] at he₁
      cases he₁
      exact hawaited suspension type hchange htype
  · obtain ⟨⟨hawaits, hsub⟩, hdue⟩ := h.trigger row hrow x j hx
    exact ⟨⟨hawaits.append, hsub.append⟩, hdue⟩
  · have hlt : q < s.log.length := by
      rcases hq with hq | ⟨rfl, hsome⟩
      · exact Nat.lt_of_lt_of_le hq (h.woken_le j)
      · obtain ⟨sel, hsel⟩ := Option.isSome_iff_exists.1 hsome
        obtain ⟨e', he', -⟩ := (h.waking j sel hsel).1
        exact (List.getElem?_eq_some_iff.1 he').1
    exact h.met j q p (hsub.of_append hlt) hpq (hawaits.of_append (Nat.lt_trans hpq hlt) hlt) hq
  · have hlt : q < s.log.length := Nat.lt_of_lt_of_le hq (h.woken_le j)
    exact h.found row hrow j q (hsub.of_append hlt) hpq hq (hawaits.of_append (Nat.lt_trans hpq hlt) hlt)
  · obtain ⟨hsub, hmatch, hrest⟩ := h.waking j sel hsel
    have hlt : s.woken j < s.log.length := by
      obtain ⟨e', he', -⟩ := hsub
      exact (List.getElem?_eq_some_iff.1 he').1
    exact ⟨hsub.append, fun row hrow => (hmatch row hrow).append,
      fun row hrow hpos hawaits => hrest row hrow hpos (hawaits.of_append (Nat.lt_trans hpos hlt) hlt)⟩

/-- No resume is of a suspension that the new event is for. -/
theorem WakeResumesInv.append (h : WakeResumesInv s) (hok : s.AppendsInTime e)
    (hphases : ∀ k phase, phases k = some phase → s.phases k = some phase)
    (hresumes : ∀ r ∈ resumes, r ∈ s.resumes ∨
      r.committedAt = s.log.length ∧ Answered s.log r.position r.trigger s.log.length ∧ r.position < s.log.length) :
    WakeResumesInv { s with log := s.log ++ [e], phases, resumes } := by
  have hlen : (s.log ++ [e]).length = s.log.length + 1 := List.length_append
  refine ⟨fun k phase row hphase hrow => ?_, fun r hr => ?_⟩
  · have hphase := hphases k phase hphase
    obtain ⟨hof, hanswered⟩ := h.reads k phase row hphase hrow
    refine ⟨hof.append, fun q hpq hq hawaits => ?_⟩
    have hq : q < (s.log ++ [e]).length := hq
    rcases Nat.lt_or_ge q s.log.length with hin | hlast
    · obtain ⟨x, htrigger, hpx, hx, hx'⟩ := hanswered q hpq hin (hawaits.of_append hof.lt hin)
      exact ⟨x, htrigger, hpx, Nat.lt_of_lt_of_le hx (by show s.log.length ≤ (s.log ++ [e]).length; omega), hx'.append⟩
    · obtain rfl : q = s.log.length := by omega
      have hlast : (s.log ++ [e])[s.log.length]? = some e := by
        rw [List.getElem?_append_right (Nat.le_refl _), Nat.sub_self]
        rfl
      exact absurd ((hof.append.awaits_iff hlast).1 hawaits) (hok.2 k phase row hphase hrow)
  · have hanswered : r.committedAt ≤ s.log.length ∧ Answered (s.log ++ [e]) r.position r.trigger r.committedAt := by
      rcases hresumes r hr with hr | ⟨hat, hanswered, hlt⟩
      · obtain ⟨hle, hanswered⟩ := h.resumes r hr
        refine ⟨hle, fun q hpq hq hawaits => ?_⟩
        exact hanswered.append hle (Nat.lt_trans hpq (Nat.lt_of_lt_of_le hq hle)) q hpq hq hawaits
      · rw [hat]
        exact ⟨Nat.le_refl _, hanswered.append (Nat.le_refl _) hlt⟩
    exact ⟨Nat.le_trans hanswered.1 (by show s.log.length ≤ (s.log ++ [e]).length; omega), hanswered.2⟩

end

/-! ## The projection -/

/-- A row of the run whose event the projection is at is of that event. -/
theorem RowsInv.position_eq {suspension : Suspension m} {row : WaitingRow m} (h : RowsInv s) (hrow : row ∈ s.rows)
    (he : s.log[s.projected]? = some e) (hchange : e.change = some (.suspends suspension))
    (htenant : row.tenantId = e.tenantId) (hrun : row.runId = e.aggregateId) : row.position = s.projected := by
  obtain ⟨e₀, he₀, hchange₀, htenant₀, hrun₀⟩ := h.of row hrow
  rcases Nat.lt_or_eq_of_le (h.le row hrow) with hlt | heq
  · have hsettled := h.apart row.position s.projected e₀ e _ suspension hlt he₀ he hchange₀ hchange
      (htenant₀.trans htenant) (hrun₀.trans hrun)
    exact absurd (hsettled.mono h.bound_le.2.1) (h.unsettled row hrow)
  · exact heq

/-- The projection leaves an event that changes no row, or that it has applied. -/
theorem RowsInv.next (h : RowsInv s) (he : s.log[s.projected]? = some e)
    (hdone : s.projecting = some .applied ∨ e.change = none) :
    RowsInv { s with projected := s.projected + 1, projecting := none } := by
  have hlt : s.projected < s.log.length := (List.getElem?_eq_some_iff.1 he).1
  have hbound : bound { s with projected := s.projected + 1, projecting := none } = s.projected + 1 := rfl
  refine ⟨hlt, fun hne => absurd rfl hne, h.of, fun row hrow => Nat.le_succ_of_le (h.le row hrow),
    fun row hrow hsettled => ?_, fun p e₁ suspension he₁ hchange hp hnot => ?_, fun hfetched => (nomatch hfetched), h.apart⟩
  · rw [hbound] at hsettled
    obtain ⟨i, e₁, e₂, hpi, hi, he₁, he₂, hsettles⟩ := hsettled
    have hi' : i < s.bound := by
      rcases hdone with happlied | hnone
      · rw [bound, if_pos happlied]
        exact hi
      · rcases Nat.lt_or_eq_of_le (Nat.le_of_lt_succ hi) with hlt | rfl
        · exact Nat.lt_of_lt_of_le hlt h.bound_le.2.1
        · have he₂ : s.log[s.projected]? = some e₂ := he₂
          cases he.symm.trans he₂
          have hchange := hsettles.2
          rw [hnone] at hchange
          exact hchange.elim
    exact h.unsettled row hrow ⟨i, e₁, e₂, hpi, hi', he₁, he₂, hsettles⟩
  · rw [hbound] at hp
    refine h.there p e₁ suspension he₁ hchange ?_ fun hsettled => hnot (hsettled.mono (Nat.le_succ _))
    rcases hdone with happlied | hnone
    · rw [bound, if_pos happlied]
      exact hp
    · rcases Nat.lt_or_eq_of_le (Nat.le_of_lt_succ hp) with hlt | rfl
      · exact Nat.lt_of_lt_of_le hlt h.bound_le.2.1
      · have he₁ : s.log[s.projected]? = some e₁ := he₁
        cases he.symm.trans he₁
        rw [hnone] at hchange
        cases hchange

/-- The projection looks for the row of a suspension. -/
theorem RowsInv.fetch {suspension : Suspension m} (h : RowsInv s) (he : s.log[s.projected]? = some e)
    (hnone : s.projecting = none) (hchange : e.change = some (.suspends suspension)) :
    RowsInv { s with projecting := some (.fetched
      ((KeyedRows.lookup WaitingRow.key (rowOf e suspension s.projected).key s.rows).any (·.trigger.isSome))) } := by
  have hlt : s.projected < s.log.length := (List.getElem?_eq_some_iff.1 he).1
  have hbound : s.bound = s.projected := by rw [bound, hnone]; rfl
  refine ⟨h.projected_le, fun _ => hlt, h.of, h.le, fun row hrow hsettled => ?_,
    fun p e₁ suspension₁ he₁ hchange₁ hp hnot => ?_, fun hfetched => ?_, h.apart⟩
  · exact h.unsettled row hrow (hbound ▸ hsettled)
  · exact h.there p e₁ suspension₁ he₁ hchange₁ (hbound ▸ hp) hnot
  · have hany := ProjectionPhase.fetched.inj (Option.some.inj hfetched)
    obtain ⟨row, hrow, -⟩ := (Option.any_eq_true _ _).1 hany
    have hmem := KeyedRows.mem_of_lookup hrow
    have hkey : row.key = (rowOf e suspension s.projected).key := KeyedRows.key_of_lookup hrow
    obtain ⟨htenant, hrest⟩ := Prod.mk.inj hkey
    exact ⟨row, hmem, h.position_eq hmem he hchange htenant (Prod.mk.inj hrest).1⟩

/-- A suspension settles no run. -/
theorem not_settles_of_suspends {suspension : Suspension m} {tenantId runId : String}
    (hchange : e.change = some (.suspends suspension)) : ¬e.Settles tenantId runId := by
  intro h
  have hsettles := h.2
  rw [hchange] at hsettles
  exact hsettles

/-- The projection adds the row of a suspension, unless it is there with a trigger. -/
theorem RowsInv.upsert {suspension : Suspension m} {triggered : Bool} (h : RowsInv s)
    (he : s.log[s.projected]? = some e) (hfetched : s.projecting = some (.fetched triggered))
    (hchange : e.change = some (.suspends suspension)) :
    RowsInv { s with
      rows := if triggered then s.rows
        else KeyedRows.delete WaitingRow.key (rowOf e suspension s.projected).key s.rows ++
          [rowOf e suspension s.projected]
      projecting := some .applied } := by
  have hlt : s.projected < s.log.length := (List.getElem?_eq_some_iff.1 he).1
  have hbound : s.bound = s.projected := by rw [bound, hfetched]; rfl
  have hmem : ∀ row ∈ (if triggered then s.rows
      else KeyedRows.delete WaitingRow.key (rowOf e suspension s.projected).key s.rows ++
        [rowOf e suspension s.projected]), row ∈ s.rows ∨ row = rowOf e suspension s.projected := by
    intro row hrow
    split at hrow
    · exact .inl hrow
    · rcases List.mem_append.1 hrow with hrow | hrow
      · exact .inl (KeyedRows.mem_delete.1 hrow).1
      · exact .inr (List.mem_singleton.1 hrow)
  refine ⟨h.projected_le, fun _ => hlt, fun row hrow => ?_, fun row hrow => ?_, fun row hrow hsettled => ?_,
    fun p e₁ suspension₁ he₁ hchange₁ hp hnot => ?_, fun heq => (nomatch heq), h.apart⟩
  · rcases hmem row hrow with hrow | rfl
    · exact h.of row hrow
    · exact ⟨e, he, hchange, rfl, rfl⟩
  · rcases hmem row hrow with hrow | rfl
    · exact h.le row hrow
    · exact Nat.le_refl _
  · obtain ⟨i, e₁, e₂, hpi, hi, he₁, he₂, hsettles⟩ := hsettled
    have hi : i < s.projected + 1 := hi
    rcases Nat.lt_or_eq_of_le (Nat.le_of_lt_succ hi) with hlt' | rfl
    · rcases hmem row hrow with hrow | rfl
      · exact h.unsettled row hrow ⟨i, e₁, e₂, hpi, hbound ▸ hlt', he₁, he₂, hsettles⟩
      · exact absurd hpi (Nat.lt_asymm hlt')
    · have he₂ : s.log[s.projected]? = some e₂ := he₂
      cases he.symm.trans he₂
      exact not_settles_of_suspends hchange hsettles
  · have hp : p < s.projected + 1 := hp
    rcases Nat.lt_or_eq_of_le (Nat.le_of_lt_succ hp) with hlt' | rfl
    · obtain ⟨row, hrow, rfl⟩ := h.there p e₁ suspension₁ he₁ hchange₁ (hbound ▸ hlt') hnot
      refine ⟨row, ?_, rfl⟩
      show row ∈ if triggered then _ else _
      split
      · exact hrow
      · refine List.mem_append.2 (.inl (KeyedRows.mem_delete.2 ⟨hrow, fun hkey => ?_⟩))
        obtain ⟨htenant, hrest⟩ := Prod.mk.inj hkey
        have heq := h.position_eq hrow he hchange htenant (Prod.mk.inj hrest).1
        omega
    · cases triggered with
      | true => exact h.fetched hfetched
      | false => exact ⟨_, List.mem_append.2 (.inr (List.mem_singleton.2 rfl)), rfl⟩

/-- The projection deletes the rows of a run that is settled. -/
theorem RowsInv.delete (h : RowsInv s) (he : s.log[s.projected]? = some e)
    (hpast : s.projecting ≠ some .applied) (hsettles : e.Settles e.tenantId e.aggregateId) :
    RowsInv { s with
      rows := s.rows.filter fun row => ¬(row.tenantId = e.tenantId ∧ row.runId = e.aggregateId)
      projecting := some .applied } := by
  have hlt : s.projected < s.log.length := (List.getElem?_eq_some_iff.1 he).1
  have hbound : s.bound = s.projected := by rw [bound, if_neg hpast]
  have hmem : ∀ row, row ∈ (s.rows.filter fun row => ¬(row.tenantId = e.tenantId ∧ row.runId = e.aggregateId)) ↔
      row ∈ s.rows ∧ ¬(row.tenantId = e.tenantId ∧ row.runId = e.aggregateId) := by
    intro row
    rw [List.mem_filter, decide_eq_true_iff]
  refine ⟨h.projected_le, fun _ => hlt, fun row hrow => h.of row ((hmem row).1 hrow).1,
    fun row hrow => h.le row ((hmem row).1 hrow).1, fun row hrow hsettled => ?_,
    fun p e₁ suspension₁ he₁ hchange₁ hp hnot => ?_, fun heq => (nomatch heq), h.apart⟩
  · obtain ⟨hrow, hother⟩ := (hmem row).1 hrow
    obtain ⟨i, e₁, e₂, hpi, hi, he₁, he₂, hsettles'⟩ := hsettled
    have hi : i < s.projected + 1 := hi
    rcases Nat.lt_or_eq_of_le (Nat.le_of_lt_succ hi) with hlt' | rfl
    · exact h.unsettled row hrow ⟨i, e₁, e₂, hpi, hbound ▸ hlt', he₁, he₂, hsettles'⟩
    · have he₂ : s.log[s.projected]? = some e₂ := he₂
      cases he.symm.trans he₂
      obtain ⟨e₀, he₀, -, htenant, hrun⟩ := h.of row hrow
      have he₁ : s.log[row.position]? = some e₁ := he₁
      cases he₀.symm.trans he₁
      exact hother ⟨(hsettles'.1.1.trans htenant).symm, (hsettles'.1.2.trans hrun).symm⟩
  · have hp : p < s.projected + 1 := hp
    rcases Nat.lt_or_eq_of_le (Nat.le_of_lt_succ hp) with hlt' | rfl
    · obtain ⟨row, hrow, rfl⟩ := h.there p e₁ suspension₁ he₁ hchange₁ (hbound ▸ hlt') hnot
      refine ⟨row, (hmem row).2 ⟨hrow, fun hsame => hnot ?_⟩, rfl⟩
      obtain ⟨e₀, he₀, -, htenant, hrun⟩ := h.of row hrow
      refine ⟨s.projected, e₀, e, hlt', Nat.lt_succ_self _, he₀, he, ?_⟩
      rw [htenant, hrun, hsame.1, hsame.2]
      exact hsettles
    · have he₁ : s.log[s.projected]? = some e₁ := he₁
      cases he.symm.trans he₁
      exact absurd hsettles (not_settles_of_suspends hchange₁)

/-- The rows that the projection leaves are rows as they were, and one of the suspension that it is at. -/
theorem WakeInv.rows {rows : List (WaitingRow m)} {projected : ℕ} {projecting : Option ProjectionPhase}
    (h : WakeInv awaits s) (hle : s.projected ≤ projected)
    (hrows : ∀ row ∈ rows, row ∈ s.rows ∨ row.trigger = none ∧ row.position = s.projected) :
    WakeInv awaits { s with rows, projected, projecting } := by
  -- No subscriber has come to an event of the suspension that the projection is at.
  have hfresh : ∀ (row : WaitingRow m) j q, row.position = s.projected → Subscribed awaits s.log j q →
      row.position < q → Awaits s.log row.position q →
      ¬(q < s.woken j ∨ q = s.woken j ∧ (s.waking j).isSome = true) := by
    intro row j q hposition hsub hpq hawaits hq
    have hlt := h.met j q row.position hsub hpq hawaits hq
    omega
  refine ⟨h.woken_le, h.awaited, fun row hrow x j hx => ?_, fun j q p hsub hpq hawaits hq =>
    Nat.lt_of_lt_of_le (h.met j q p hsub hpq hawaits hq) hle, fun row hrow j q hsub hpq hq hawaits => ?_,
    fun j sel hsel => ?_⟩
  · rcases hrows row hrow with hrow | ⟨hnone, -⟩
    · exact h.trigger row hrow x j hx
    · rw [hnone] at hx
      cases hx
  · rcases hrows row hrow with hrow | ⟨-, hposition⟩
    · exact h.found row hrow j q hsub hpq hq hawaits
    · exact absurd (.inl hq) (hfresh row j q hposition hsub hpq hawaits)
  · obtain ⟨hsub, hmatch, hrest⟩ := h.waking j sel hsel
    refine ⟨hsub, hmatch, fun row hrow hpos hawaits => ?_⟩
    rcases hrows row hrow with hrow | ⟨-, hposition⟩
    · exact hrest row hrow hpos hawaits
    · have hsome : (s.waking j).isSome = true := by
        rw [show s.waking j = some sel from hsel]
        rfl
      exact absurd (.inr ⟨rfl, hsome⟩) (hfresh row j _ hposition hsub hpos hawaits)

/-- The next statement of the projection. -/
theorem RowsInv.project (h : RowsInv s) (hwake : WakeInv awaits s) (he : s.log[s.projected]? = some e) :
    RowsInv (s.projectEvent e) ∧ WakeInv awaits (s.projectEvent e) := by
  have hsame : ∀ row ∈ s.rows, row ∈ s.rows ∨ row.trigger = none ∧ row.position = s.projected := fun _ => .inl
  have hdelete : e.Settles e.tenantId e.aggregateId → s.projecting ≠ some .applied →
      RowsInv { s with
        rows := s.rows.filter fun row => ¬(row.tenantId = e.tenantId ∧ row.runId = e.aggregateId)
        projecting := some .applied } ∧
      WakeInv awaits { s with
        rows := s.rows.filter fun row => ¬(row.tenantId = e.tenantId ∧ row.runId = e.aggregateId)
        projecting := some .applied } := fun hsettles hpast =>
    ⟨h.delete he hpast hsettles, hwake.rows (Nat.le_refl _) fun row hrow => .inl (List.mem_of_mem_filter hrow)⟩
  have hnext : s.projecting = some .applied ∨ e.change = none →
      RowsInv { s with projected := s.projected + 1, projecting := none } ∧
      WakeInv awaits { s with projected := s.projected + 1, projecting := none } := fun hdone =>
    ⟨h.next he hdone, hwake.rows (Nat.le_succ _) hsame⟩
  cases hprojecting : s.projecting with
  | none =>
    cases hchange : e.change with
    | none =>
      simp only [projectEvent, hprojecting, hchange]
      exact hnext (.inr hchange)
    | some change =>
      cases change with
      | suspends suspension =>
        simp only [projectEvent, hprojecting, hchange]
        exact ⟨h.fetch he hprojecting hchange, hwake.rows (Nat.le_refl _) hsame⟩
      | resumed | ended =>
        simp only [projectEvent, hprojecting, hchange]
        exact hdelete ⟨⟨rfl, rfl⟩, by rw [hchange]; trivial⟩ (by simp [hprojecting])
  | some phase =>
    cases phase with
    | applied =>
      simp only [projectEvent, hprojecting]
      exact hnext (.inl hprojecting)
    | fetched triggered =>
      cases hchange : e.change with
      | none =>
        simp only [projectEvent, hprojecting, hchange]
        exact hnext (.inr hchange)
      | some change =>
        cases change with
        | suspends suspension =>
          simp only [projectEvent, hprojecting, hchange]
          refine ⟨h.upsert he hprojecting hchange, hwake.rows (Nat.le_refl _) fun row hrow => ?_⟩
          split at hrow
          · exact .inl hrow
          · rcases List.mem_append.1 hrow with hrow | hrow
            · exact .inl (KeyedRows.mem_delete.1 hrow).1
            · rw [List.mem_singleton.1 hrow]
              exact .inr ⟨rfl, rfl⟩
        | resumed | ended =>
          simp only [projectEvent, hprojecting, hchange]
          exact hdelete ⟨⟨rfl, rfl⟩, by rw [hchange]; trivial⟩ (by simp [hprojecting])

/-- The projection begins its event again. -/
theorem RowsInv.again (h : RowsInv s) : RowsInv { s with projecting := none } where
  projected_le := h.projected_le
  projecting_lt := fun hne => absurd rfl hne
  of := h.of
  le := h.le
  unsettled := fun row hrow hsettled => h.unsettled row hrow (hsettled.mono h.bound_le.2.1)
  there := fun p e suspension he hchange hp hnot =>
    h.there p e suspension he hchange (Nat.lt_of_lt_of_le hp h.bound_le.2.1) hnot
  fetched := fun heq => nomatch heq
  apart := h.apart

/-! ## The subscribers -/

/-- Rows that differ from those of the table in their trigger only. -/
theorem RowsInv.congr {f : WaitingRow m → WaitingRow m} {woken : Fin m → ℕ} {waking : Fin m → Option (List (WaitingRow m))}
    (h : RowsInv s) (hf : ∀ row, (f row).position = row.position ∧ (f row).suspension = row.suspension ∧
      (f row).tenantId = row.tenantId ∧ (f row).runId = row.runId) :
    RowsInv { s with rows := s.rows.map f, woken, waking } := by
  refine ⟨h.projected_le, h.projecting_lt, fun row hrow => ?_, fun row hrow => ?_, fun row hrow => ?_,
    fun p e suspension he hchange hp hnot => ?_, fun heq => ?_, h.apart⟩
  · obtain ⟨r, hr, rfl⟩ := List.mem_map.1 hrow
    obtain ⟨hposition, hsuspension, htenant, hrun⟩ := hf r
    obtain ⟨e, he, hchange, htenant', hrun'⟩ := h.of r hr
    refine ⟨e, ?_, ?_, ?_, ?_⟩
    · rw [hposition]; exact he
    · rw [hsuspension]; exact hchange
    · rw [htenant]; exact htenant'
    · rw [hrun]; exact hrun'
  · obtain ⟨r, hr, rfl⟩ := List.mem_map.1 hrow
    rw [(hf r).1]
    exact h.le r hr
  · obtain ⟨r, hr, rfl⟩ := List.mem_map.1 hrow
    rw [(hf r).1]
    exact h.unsettled r hr
  · obtain ⟨r, hr, heq⟩ := h.there p e suspension he hchange hp hnot
    exact ⟨f r, List.mem_map.2 ⟨r, hr, rfl⟩, (hf r).1.trans heq⟩
  · obtain ⟨r, hr, hposition⟩ := h.fetched heq
    exact ⟨f r, List.mem_map.2 ⟨r, hr, rfl⟩, (hf r).1.trans hposition⟩

/-- A subscriber finds the rows of its event. -/
theorem WakeInv.select {matching : List (WaitingRow m)} (h : WakeInv awaits s) (hof : ∀ row ∈ s.rows, row.Of s.log)
    (he : s.log[s.woken j]? = some e) (htype : e.type ∈ awaits j)
    (hmatching : matching = s.rows.filter fun row => row.suspension.Matches row.tenantId e)
    (hmet : ∀ p, p < s.woken j → Awaits s.log p (s.woken j) → p < s.projected) :
    WakeInv awaits { s with waking := Function.update s.waking j (some matching) } := by
  subst hmatching
  refine ⟨h.woken_le, h.awaited, h.trigger, fun j' q p hsub hpq hawaits hq => ?_, h.found, fun j' sel hwaking => ?_⟩
  · rcases hq with hq | ⟨rfl, hupdated⟩
    · exact h.met j' q p hsub hpq hawaits (.inl hq)
    · have hsome : (Function.update s.waking j _ j').isSome = true := hupdated
      rcases eq_or_ne j' j with rfl | hne
      · exact hmet p hpq hawaits
      · rw [Function.update_of_ne hne] at hsome
        exact h.met j' _ p hsub hpq hawaits (.inr ⟨rfl, hsome⟩)
  · have hsel : Function.update s.waking j _ j' = some sel := hwaking
    rcases eq_or_ne j' j with rfl | hne
    · rw [Function.update_self] at hsel
      cases hsel
      refine ⟨⟨e, he, htype⟩, fun row hrow => ?_, fun row hrow _ hawaits => .inl ⟨row, ?_, rfl⟩⟩
      · obtain ⟨hrow, hmatches⟩ := List.mem_filter.1 hrow
        exact ((hof row hrow).awaits_iff he).2 (of_decide_eq_true hmatches)
      · exact List.mem_filter.2 ⟨hrow, decide_eq_true (((hof row hrow).awaits_iff he).1 hawaits)⟩
    · rw [Function.update_of_ne hne] at hsel
      exact h.waking j' sel hsel

/-- A subscriber leaves an event that it does not have, or whose rows it has woken. -/
theorem WakeInv.next {waking : Fin m → Option (List (WaitingRow m))} (h : WakeInv awaits s)
    (he : s.log[s.woken j]? = some e) (hothers : ∀ j', j' ≠ j → waking j' = s.waking j') (hself : waking j = none)
    (hdone : s.waking j = none ∧ e.type ∉ awaits j ∨ s.waking j = some []) :
    WakeInv awaits { s with woken := Function.update s.woken j (s.woken j + 1), waking } := by
  -- The subscriber has woken all rows of the event.
  have hlast : ∀ row ∈ s.rows, Subscribed awaits s.log j (s.woken j) → row.position < s.woken j →
      Awaits s.log row.position (s.woken j) → ∃ x j', row.trigger = some (x, j') ∧ (j' = j → s.woken j ≤ x) := by
    intro row hrow hsub hpos hawaits
    rcases hdone with ⟨-, hnot⟩ | hempty
    · obtain ⟨e', he', htype⟩ := hsub
      cases he.symm.trans he'
      exact absurd htype hnot
    · rcases (h.waking j [] hempty).2.2 row hrow hpos hawaits with ⟨r, hr, -⟩ | hfound
      · cases hr
      · exact hfound
  refine ⟨fun j' => ?_, h.awaited, h.trigger, fun j' q p hsub hpq hawaits hq => ?_,
    fun row hrow j' q hsub hpq hlt hawaits => ?_, fun j' sel hwaking => ?_⟩
  · show Function.update s.woken j (s.woken j + 1) j' ≤ s.log.length
    rcases eq_or_ne j' j with rfl | hne
    · rw [Function.update_self]
      exact (List.getElem?_eq_some_iff.1 he).1
    · rw [Function.update_of_ne hne]
      exact h.woken_le j'
  · have hq : q < Function.update s.woken j (s.woken j + 1) j' ∨
        q = Function.update s.woken j (s.woken j + 1) j' ∧ (waking j').isSome = true := hq
    rcases eq_or_ne j' j with rfl | hne
    · rw [Function.update_self, hself] at hq
      rcases hq with hq | ⟨-, hsome⟩
      · rcases Nat.lt_or_eq_of_le (Nat.le_of_lt_succ hq) with hlt | rfl
        · exact h.met j' q p hsub hpq hawaits (.inl hlt)
        · rcases hdone with ⟨-, hnot⟩ | hempty
          · obtain ⟨e', he', htype⟩ := hsub
            cases he.symm.trans he'
            exact absurd htype hnot
          · exact h.met j' _ p hsub hpq hawaits (.inr ⟨rfl, by rw [hempty]; rfl⟩)
      · cases hsome
    · rw [Function.update_of_ne hne, hothers j' hne] at hq
      exact h.met j' q p hsub hpq hawaits hq
  · have hq : q < Function.update s.woken j (s.woken j + 1) j' := hlt
    rcases eq_or_ne j' j with rfl | hne
    · rw [Function.update_self] at hq
      rcases Nat.lt_or_eq_of_le (Nat.le_of_lt_succ hq) with hlt | rfl
      · exact h.found row hrow j' q hsub hpq hlt hawaits
      · exact hlast row hrow hsub hpq hawaits
    · rw [Function.update_of_ne hne] at hq
      exact h.found row hrow j' q hsub hpq hq hawaits
  · have hsel : waking j' = some sel := hwaking
    rcases eq_or_ne j' j with rfl | hne
    · rw [hself] at hsel
      cases hsel
    · rw [hothers j' hne] at hsel
      simpa only [Function.update_of_ne hne] using h.waking j' sel hsel

/-- A subscriber wakes a row that it has found. -/
theorem WakeInv.wakeRow {row : WaitingRow m} {rest : List (WaitingRow m)} (h : WakeInv awaits s)
    (hwaking : s.waking j = some (row :: rest))
    (hsame : ∀ r ∈ s.rows, r.key = row.key → r.position = row.position) :
    WakeInv awaits { s with
      rows := s.rows.map fun r => if r.key = row.key then r.wake (s.woken j) j s.now else r
      waking := Function.update s.waking j (some rest) } := by
  obtain ⟨hsub, hmatch, hrest⟩ := h.waking j (row :: rest) hwaking
  have hcases : ∀ r' ∈ s.rows.map (fun r => if r.key = row.key then r.wake (s.woken j) j s.now else r),
      (r' ∈ s.rows ∧ r'.key ≠ row.key) ∨ ∃ r ∈ s.rows, r.key = row.key ∧ r' = r.wake (s.woken j) j s.now := by
    intro r' hr'
    obtain ⟨r, hr, rfl⟩ := List.mem_map.1 hr'
    by_cases hkey : r.key = row.key
    · rw [if_pos hkey]
      exact .inr ⟨r, hr, hkey, rfl⟩
    · rw [if_neg hkey]
      exact .inl ⟨hr, hkey⟩
  refine ⟨h.woken_le, h.awaited, fun r' hr' x j' hx => ?_, fun j' q p hsub' hpq hawaits hq => ?_,
    fun r' hr' j' q hsub' hpq hq hawaits => ?_, fun j' sel hupdated => ?_⟩
  · rcases hcases r' hr' with ⟨hr, -⟩ | ⟨r, hr, hkey, rfl⟩
    · exact h.trigger r' hr x j' hx
    · cases hx
      refine ⟨⟨?_, hsub⟩, Int.le_refl s.now⟩
      show Awaits s.log r.position (s.woken j)
      rw [hsame r hr hkey]
      exact hmatch row List.mem_cons_self
  · refine h.met j' q p hsub' hpq hawaits ?_
    rcases hq with hq | ⟨heq, hupdated⟩
    · exact .inl hq
    · have hsome : (Function.update s.waking j (some rest) j').isSome = true := hupdated
      rcases eq_or_ne j' j with rfl | hne
      · exact .inr ⟨heq, by rw [hwaking]; rfl⟩
      · rw [Function.update_of_ne hne] at hsome
        exact .inr ⟨heq, hsome⟩
  · rcases hcases r' hr' with ⟨hr, -⟩ | ⟨r, hr, hkey, rfl⟩
    · exact h.found r' hr j' q hsub' hpq hq hawaits
    · -- The event of the subscriber comes after those that it has been at.
      refine ⟨s.woken j, j, rfl, ?_⟩
      rintro rfl
      exact Nat.le_of_lt hq
  · have hsel : Function.update s.waking j (some rest) j' = some sel := hupdated
    rcases eq_or_ne j' j with rfl | hne
    · rw [Function.update_self] at hsel
      cases hsel
      refine ⟨hsub, fun r hr => hmatch r (List.mem_cons_of_mem _ hr), fun r' hr' hpos hawaits => ?_⟩
      rcases hcases r' hr' with ⟨hr, hkey⟩ | ⟨r, hr, hkey, rfl⟩
      · rcases hrest r' hr hpos hawaits with ⟨r, hr, heq⟩ | hfound
        · rcases List.mem_cons.1 hr with rfl | hr
          · exact absurd heq.symm hkey
          · exact .inl ⟨r, hr, heq⟩
        · exact .inr hfound
      · exact .inr ⟨_, _, rfl, fun _ => Nat.le_refl _⟩
    · rw [Function.update_of_ne hne] at hsel
      obtain ⟨hsub', hmatch', hrest'⟩ := h.waking j' sel hsel
      refine ⟨hsub', hmatch', fun r' hr' hpos hawaits => ?_⟩
      rcases hcases r' hr' with ⟨hr, -⟩ | ⟨r, hr, hkey, rfl⟩
      · exact hrest' r' hr hpos hawaits
      · exact .inr ⟨s.woken j, j, rfl, fun heq => absurd heq.symm hne⟩

/-- The next statement of a subscriber. -/
theorem WakeInv.wake (h : WakeInv awaits s) (hrows : RowsInv s) (hok : InTime awaits s (.wake j))
    (he : s.log[s.woken j]? = some e) :
    RowsInv (s.wakeEvent awaits j e) ∧ WakeInv awaits (s.wakeEvent awaits j e) := by
  obtain ⟨hmet, hsame⟩ := hok
  cases hwaking : s.waking j with
  | none =>
    simp only [wakeEvent, hwaking]
    split
    · next htype =>
      exact ⟨⟨hrows.1, hrows.2, hrows.3, hrows.4, hrows.5, hrows.6, hrows.7, hrows.8⟩,
        h.select hrows.of he htype rfl fun p hp hawaits => hmet p hp ⟨e, he, htype⟩ hawaits⟩
    · next htype =>
      exact ⟨⟨hrows.1, hrows.2, hrows.3, hrows.4, hrows.5, hrows.6, hrows.7, hrows.8⟩,
        h.next he (fun _ _ => rfl) hwaking (.inl ⟨hwaking, htype⟩)⟩
  | some sel =>
    cases sel with
    | nil =>
      simp only [wakeEvent, hwaking]
      exact ⟨⟨hrows.1, hrows.2, hrows.3, hrows.4, hrows.5, hrows.6, hrows.7, hrows.8⟩,
        h.next he (fun _ hne => Function.update_of_ne hne ..) (Function.update_self ..) (.inr hwaking)⟩
    | cons row rest =>
      simp only [wakeEvent, hwaking]
      refine ⟨hrows.congr fun r => ?_, h.wakeRow hwaking (hsame row rest hwaking)⟩
      split
      · exact ⟨rfl, rfl, rfl, rfl⟩
      · exact ⟨rfl, rfl, rfl, rfl⟩

/-- A subscriber begins its event again. -/
theorem WakeInv.again (h : WakeInv awaits s) : WakeInv awaits { s with waking := Function.update s.waking j none } := by
  have hback : ∀ j' sel, Function.update s.waking j none j' = some sel → s.waking j' = some sel := by
    intro j' sel hsel
    rcases eq_or_ne j' j with rfl | hne
    · rw [Function.update_self] at hsel
      cases hsel
    · rwa [Function.update_of_ne hne] at hsel
  refine ⟨h.woken_le, h.awaited, h.trigger, fun j' q p hsub hpq hawaits hq => h.met j' q p hsub hpq hawaits ?_, h.found,
    fun j' sel hsel => h.waking j' sel (hback j' sel hsel)⟩
  rcases hq with hq | ⟨heq, hsome⟩
  · exact .inl hq
  · obtain ⟨sel, hsel⟩ := Option.isSome_iff_exists.1 hsome
    exact .inr ⟨heq, by rw [hback j' sel hsel]; rfl⟩

/-! ## The resumes -/

/-- The events that a suspension waits for are of one type. -/
theorem subscribed_of_awaits {log : List (WakeEvent m)} {p x q : ℕ} (h : Subscribed awaits log j x)
    (hx : Awaits log p x) (hq : Awaits log p q) : Subscribed awaits log j q := by
  obtain ⟨e, suspension, ex, he, hchange, hex, hmatches⟩ := hx
  obtain ⟨e', suspension', eq, he', hchange', heq, hmatches'⟩ := hq
  cases he.symm.trans he'
  cases hchange.symm.trans hchange'
  obtain ⟨ex', hex', htype⟩ := h
  cases hex.symm.trans hex'
  have hsame : ex.type = eq.type := Option.some.inj (hmatches.1.2.symm.trans hmatches'.1.2)
  exact ⟨eq, heq, hsame ▸ htype⟩

/-- A row that is read when the subscribers have come to its events carries one of them. -/
theorem WakeInv.answered {row : WaitingRow m} (h : WakeInv awaits s) (hrow : row ∈ s.rows)
    (hcome : ∀ j q, row.position < q → Subscribed awaits s.log j q → Awaits s.log row.position q → q < s.woken j) :
    Answered s.log row.position (row.trigger.map (·.1)) s.log.length := by
  intro q hpq _ hawaits
  -- The workflow of the suspension has a subscriber, which has found the row.
  have hown : ∃ w, Subscribed awaits s.log w q := by
    obtain ⟨e, suspension, e', he, hchange, he', hmatches⟩ := hawaits
    exact ⟨suspension.workflow, e', he', h.awaited _ e suspension e'.type he hchange hmatches.1.2⟩
  obtain ⟨w, hw⟩ := hown
  obtain ⟨x, j, htrigger, -⟩ := h.found row hrow w q hw hpq (hcome w q hpq hw hawaits) hawaits
  obtain ⟨⟨hx, hsub⟩, -⟩ := h.trigger row hrow x j htrigger
  -- Whoever has set the trigger has come to the event too.
  have hj : Subscribed awaits s.log j q := subscribed_of_awaits hsub hx hawaits
  obtain ⟨x', j', htrigger', hle⟩ := h.found row hrow j q hj hpq (hcome j q hpq hj hawaits) hawaits
  obtain ⟨rfl, rfl⟩ := Prod.mk.inj (Option.some.inj (htrigger.symm.trans htrigger'))
  refine ⟨x, ?_, Nat.lt_of_lt_of_le hpq (hle rfl), hx.lt.2, hx⟩
  rw [htrigger]
  rfl

theorem WakeResumesInv.setPhase {phase : Option (WakeResumePhase m)} (h : WakeResumesInv s)
    (hok : ∀ p row, phase = some p → p.row = some row →
      row.Of s.log ∧ Answered s.log row.position (row.trigger.map (·.1)) s.log.length) :
    WakeResumesInv (s.setPhase k phase) := by
  refine ⟨fun k' p row hupdated hrow => ?_, h.resumes⟩
  have hphase : Function.update s.phases k phase k' = some p := hupdated
  rcases eq_or_ne k' k with rfl | hne
  · rw [Function.update_self] at hphase
    exact hok p row hphase hrow
  · rw [Function.update_of_ne hne] at hphase
    exact h.reads k' p row hphase hrow

/-- What holds in every run. -/
structure StoreInv (awaits : Fin m → List String) (s : WakeStore m n) : Prop where
  rows : RowsInv s
  wake : WakeInv awaits s
  resumes : WakeResumesInv s

/-- What awaited events come to: when a subscriber has been at an event after a suspension that is still open, its row
is due and carries an event; and a run is resumed with an event of those that had come by then. -/
structure NoLostWakeUp (awaits : Fin m → List String) (s : WakeStore m n) : Prop where
  due : ∀ p q j, Awaits s.log p q → Subscribed awaits s.log j q → p < q → q < s.woken j →
    ¬SettledWithin s.log p s.log.length →
    ∃ row ∈ s.rows, row.position = p ∧ row.trigger.isSome = true ∧ row.wakeAt ≤ s.now
  resumed : ∀ r ∈ s.resumes, Answered s.log r.position r.trigger r.committedAt

/-- What the invariant says of the rows and the resumes. -/
theorem StoreInv.noLostWakeUp (h : StoreInv awaits s) : NoLostWakeUp awaits s where
  due := fun p q j hawaits hsub hpq hq hopen => by
    obtain ⟨e, suspension, e', he, hchange, he', hmatches⟩ := hawaits
    have hawaits : Awaits s.log p q := ⟨e, suspension, e', he, hchange, he', hmatches⟩
    have hp : p < s.projected := h.wake.met j q p hsub hpq hawaits (.inl hq)
    obtain ⟨row, hrow, rfl⟩ := h.rows.there p e suspension he hchange (Nat.lt_of_lt_of_le hp h.rows.bound_le.2.1)
      fun hsettled => hopen (by
        obtain ⟨i, e₁, e₂, hpi, -, he₁, he₂, hsettles⟩ := hsettled
        exact ⟨i, e₁, e₂, hpi, (List.getElem?_eq_some_iff.1 he₂).1, he₁, he₂, hsettles⟩)
    obtain ⟨x, j', htrigger, -⟩ := h.wake.found row hrow j q hsub hpq hq hawaits
    refine ⟨row, hrow, rfl, ?_, (h.wake.trigger row hrow x j' htrigger).2⟩
    rw [htrigger]
    rfl
  resumed := fun r hr => (h.resumes.resumes r hr).2

theorem storeInv_initial {now : ℤ} : StoreInv awaits (initial (m := m) (n := n) now) where
  rows := by
    refine ⟨Nat.le_refl _, fun hne => absurd rfl hne, ?_, ?_, ?_, ?_, fun heq => (nomatch heq), ?_⟩
    · exact fun row hrow => nomatch hrow
    · exact fun row hrow => nomatch hrow
    · exact fun row hrow => nomatch hrow
    · intro p e suspension he
      cases he
    · intro p p' e e' suspension suspension' _ he
      cases he
  wake := by
    refine ⟨fun _ => Nat.le_refl _, fun p e _ _ he => ?_, fun row hrow => (nomatch hrow), fun j q p _ _ hawaits => ?_,
      fun row hrow => (nomatch hrow), fun j sel hsel => (nomatch hsel)⟩
    · cases he
    · obtain ⟨e, _, _, he, -⟩ := hawaits
      cases he
  resumes := ⟨fun k phase row hphase => (nomatch hphase), fun r hr => (nomatch hr)⟩

/-- A statement of a resume. -/
theorem StoreInv.advance {phase : WakeResumePhase m} (h : StoreInv awaits s) (hok : InTime awaits s (.advance k))
    (hphase : s.phases k = some phase) : StoreInv awaits (s.advanceResume k phase) := by
  have hset : ∀ next : Option (WakeResumePhase m), (∀ p row, next = some p → p.row = some row →
      row.Of s.log ∧ Answered s.log row.position (row.trigger.map (·.1)) s.log.length) →
      StoreInv awaits (s.setPhase k next) := fun next hnext =>
    ⟨⟨h.rows.1, h.rows.2, h.rows.3, h.rows.4, h.rows.5, h.rows.6, h.rows.7, h.rows.8⟩,
      ⟨h.wake.1, h.wake.2, h.wake.3, h.wake.4, h.wake.5, h.wake.6⟩, h.resumes.setPhase hnext⟩
  cases phase with
  | fetch key =>
    refine hset _ fun p row hp hrow => ?_
    obtain ⟨r, hr, rfl⟩ := Option.map_eq_some_iff.1 hp
    cases hrow
    have hmem := KeyedRows.mem_of_lookup hr
    exact ⟨h.rows.of row hmem, h.wake.answered hmem
      fun j q hpq hsub hawaits => hok.1 key hphase row hmem (KeyedRows.key_of_lookup hr) j q hpq hsub hawaits⟩
  | load row =>
    refine hset _ fun p row' hp hrow => ?_
    split at hp
    · cases hp
    · cases hp
      cases hrow
      exact h.resumes.reads k _ row hphase rfl
  | claim row =>
    have happend := hok.2 row hphase
    obtain ⟨hof, hanswered⟩ := h.resumes.reads k _ row hphase rfl
    refine ⟨h.rows.append happend, h.wake.append fun suspension type hchange => (nomatch hchange),
      h.resumes.append happend (fun k' p hp => ?_) fun r hr => ?_⟩
    · have hp : Function.update s.phases k none k' = some p := hp
      rcases eq_or_ne k' k with rfl | hne
      · rw [Function.update_self] at hp
        cases hp
      · rwa [Function.update_of_ne hne] at hp
    · rcases List.mem_append.1 hr with hr | hr
      · exact .inl hr
      · rw [List.mem_singleton.1 hr]
        exact .inr ⟨rfl, hanswered, hof.lt⟩

/-- Every step in time keeps the invariant. -/
theorem StoreInv.step {a : WakeAct m n} (h : StoreInv awaits s) (hok : InTime awaits s a)
    (hs : s.step awaits a = some s') : StoreInv awaits s' := by
  have hset : ∀ k next, (∀ p row, next = some p → p.row ≠ some row) → StoreInv awaits (s.setPhase k next) :=
    fun k next hnext =>
    ⟨⟨h.rows.1, h.rows.2, h.rows.3, h.rows.4, h.rows.5, h.rows.6, h.rows.7, h.rows.8⟩,
      ⟨h.wake.1, h.wake.2, h.wake.3, h.wake.4, h.wake.5, h.wake.6⟩,
      h.resumes.setPhase fun p row hp hrow => absurd hrow (hnext p row hp)⟩
  cases a with
  | tick ms =>
    cases hs
    refine ⟨⟨h.rows.1, h.rows.2, h.rows.3, h.rows.4, h.rows.5, h.rows.6, h.rows.7, h.rows.8⟩,
      ⟨h.wake.1, h.wake.2, fun row hrow x j hx => ?_, h.wake.4, h.wake.5, h.wake.6⟩, ⟨h.resumes.1, h.resumes.2⟩⟩
    obtain ⟨hmatch, hdue⟩ := h.wake.trigger row hrow x j hx
    refine ⟨hmatch, ?_⟩
    show row.wakeAt ≤ s.now + ms
    omega
  | append e =>
    have happend : (∀ suspension type, e.change = some (.suspends suspension) →
        suspension.waitEventType = some type → type ∈ awaits suspension.workflow) →
        StoreInv awaits { s with log := s.log ++ [e] } := fun hawaited =>
      ⟨h.rows.append hok, h.wake.append hawaited, h.resumes.append hok (fun _ _ hp => hp) fun _ hr => .inl hr⟩
    rw [WakeStore.step] at hs
    cases hchange : e.change with
    | none =>
      simp only [hchange] at hs
      cases hs
      exact happend fun suspension type heq => by rw [hchange] at heq; cases heq
    | some change =>
      cases change with
      | resumed stepIndex retryAttempt =>
        simp only [hchange] at hs
        cases hs
      | ended =>
        simp only [hchange] at hs
        cases hs
        exact happend fun suspension type heq => by rw [hchange] at heq; cases heq
      | suspends suspension =>
        simp only [hchange] at hs
        split at hs
        · next hall =>
          cases hs
          refine happend fun suspension' type heq htype => ?_
          rw [hchange] at heq
          cases heq
          rw [htype, Option.all_some] at hall
          exact of_decide_eq_true hall
        · cases hs
  | project =>
    obtain ⟨e, he, rfl⟩ := Option.map_eq_some_iff.1 hs
    obtain ⟨hrows, hwake⟩ := h.rows.project h.wake he
    refine ⟨hrows, hwake, ?_⟩
    have hkeep : (s.projectEvent e).log = s.log ∧ (s.projectEvent e).phases = s.phases ∧
        (s.projectEvent e).resumes = s.resumes := by
      unfold projectEvent
      split <;> exact ⟨rfl, rfl, rfl⟩
    obtain ⟨hlog, hphases, hresumes⟩ := hkeep
    refine ⟨?_, ?_⟩
    · rw [hlog, hphases]
      exact h.resumes.reads
    · rw [hlog, hresumes]
      exact h.resumes.resumes
  | projectAgain =>
    cases hs
    exact ⟨h.rows.again, ⟨h.wake.1, h.wake.2, h.wake.3, h.wake.4, h.wake.5, h.wake.6⟩, ⟨h.resumes.1, h.resumes.2⟩⟩
  | wake j =>
    obtain ⟨e, he, rfl⟩ := Option.map_eq_some_iff.1 hs
    obtain ⟨hrows, hwake⟩ := h.wake.wake h.rows hok he
    refine ⟨hrows, hwake, ?_⟩
    have hkeep : (s.wakeEvent awaits j e).log = s.log ∧ (s.wakeEvent awaits j e).phases = s.phases ∧
        (s.wakeEvent awaits j e).resumes = s.resumes := by
      unfold wakeEvent
      split
      · split <;> exact ⟨rfl, rfl, rfl⟩
      · exact ⟨rfl, rfl, rfl⟩
      · exact ⟨rfl, rfl, rfl⟩
    obtain ⟨hlog, hphases, hresumes⟩ := hkeep
    refine ⟨?_, ?_⟩
    · rw [hlog, hphases]
      exact h.resumes.reads
    · rw [hlog, hresumes]
      exact h.resumes.resumes
  | wakeAgain j =>
    cases hs
    exact ⟨⟨h.rows.1, h.rows.2, h.rows.3, h.rows.4, h.rows.5, h.rows.6, h.rows.7, h.rows.8⟩, h.wake.again,
      ⟨h.resumes.1, h.resumes.2⟩⟩
  | dispatch k key =>
    rw [WakeStore.step] at hs
    split at hs
    · cases hs
      exact hset k _ fun p row hp hrow => by cases hp; cases hrow
    · cases hs
  | advance k =>
    obtain ⟨phase, hphase, rfl⟩ := Option.map_eq_some_iff.1 hs
    exact h.advance hok hphase
  | rollback k =>
    cases hs
    exact hset k none fun p row hp => nomatch hp

/-- Where no subscriber is ahead of the rows and no resume ahead of the subscribers, no awaited event is lost. -/
theorem woken_of_run {now : ℤ} (hr : Run (WakeStore.step awaits) (InTime awaits) (initial (m := m) (n := n) now) s) :
    NoLostWakeUp awaits s :=
  (hr.invariant (I := StoreInv awaits) storeInv_initial fun _ _ _ h hok hs => h.step hok hs).noLostWakeUp

/-! ## Runs -/

def awaitsB (log : List (WakeEvent m)) (p q : ℕ) : Bool :=
  match log[p]?, log[q]? with
  | some e, some e' => e.suspension.any fun suspension => suspension.Matches e.tenantId e'
  | _, _ => false

theorem awaits_iff {log : List (WakeEvent m)} {p q : ℕ} : Awaits log p q ↔ awaitsB log p q = true := by
  constructor
  · rintro ⟨e, suspension, e', he, hchange, he', hmatches⟩
    simp [awaitsB, he, he', WakeEvent.suspension, hchange, hmatches]
  · intro h
    unfold awaitsB at h
    split at h
    · next e e' he he' =>
      obtain ⟨suspension, hsuspension, hmatches⟩ := (Option.any_eq_true _ _).1 h
      refine ⟨e, suspension, e', he, ?_, he', of_decide_eq_true hmatches⟩
      unfold WakeEvent.suspension at hsuspension
      split at hsuspension
      · next hchange => cases hsuspension; exact hchange
      · cases hsuspension
    · cases h

/-- The condition on an event, evaluated where no run has suspended before. -/
def appendsInTimeB (s : WakeStore m n) (e : WakeEvent m) : Bool :=
  (e.suspension.isNone || s.log.all (·.suspension.isNone)) && decide (∀ k, (s.phases k).all fun phase =>
    phase.row.all fun row => ¬row.suspension.Matches row.tenantId e)

/-- The condition, evaluated. -/
def inTimeB (s : WakeStore m n) : WakeAct m n → Bool
  | .append e => appendsInTimeB s e
  | .wake j =>
    ((List.range (s.woken j)).all fun p => !awaitsB s.log p (s.woken j) || p < s.projected) &&
      (s.waking j).all fun sel => sel.head?.all fun row =>
        s.rows.all fun r => r.key ≠ row.key || r.position = row.position
  | .advance k => match s.phases k with
    | some (.fetch key) => s.rows.all fun row => row.key ≠ key || (List.range s.log.length).all fun q =>
      !awaitsB s.log row.position q || decide (∀ j, q < s.woken j)
    | some (.claim row) => appendsInTimeB s (resumedEvent row)
    | _ => true
  | _ => true

theorem appendsInTime_of_check (h : appendsInTimeB s e = true) : s.AppendsInTime e := by
  obtain ⟨hsuspends, hresumes⟩ := Bool.and_eq_true_iff.1 h
  refine ⟨fun suspension p e₀ suspension₀ hchange he₀ hchange₀ _ _ => ?_, fun k phase row hphase hrow => ?_⟩
  · rcases Bool.or_eq_true_iff.1 hsuspends with hnone | hall
    · simp [WakeEvent.suspension, hchange] at hnone
    · have hnone := List.all_eq_true.1 hall e₀ (List.mem_of_getElem? he₀)
      simp [WakeEvent.suspension, hchange₀] at hnone
  · have hall := of_decide_eq_true hresumes k
    rw [hphase, Option.all_some, hrow, Option.all_some] at hall
    exact of_decide_eq_true hall

theorem inTime_of_check {a : WakeAct m n} (h : inTimeB s a = true) : InTime awaits s a := by
  cases a with
  | append e => exact appendsInTime_of_check h
  | wake j =>
    obtain ⟨hmet, hsame⟩ := Bool.and_eq_true_iff.1 h
    refine ⟨fun p hp _ hawaits => ?_, fun row rest hwaking r hr hkey => ?_⟩
    · rcases Bool.or_eq_true_iff.1 (List.all_eq_true.1 hmet p (List.mem_range.2 hp)) with hnot | hlt
      · rw [awaits_iff.1 hawaits] at hnot
        cases hnot
      · exact of_decide_eq_true hlt
    · rw [hwaking, Option.all_some, List.head?_cons, Option.all_some] at hsame
      rcases Bool.or_eq_true_iff.1 (List.all_eq_true.1 hsame r hr) with hne | heq
      · exact absurd hkey (of_decide_eq_true hne)
      · exact of_decide_eq_true heq
  | advance k =>
    refine ⟨fun key hphase row hrow hkey j q _ _ hawaits => ?_, fun row hphase => ?_⟩
    · rw [inTimeB, hphase] at h
      rcases Bool.or_eq_true_iff.1 (List.all_eq_true.1 h row hrow) with hne | hall
      · exact absurd hkey (of_decide_eq_true hne)
      · rcases Bool.or_eq_true_iff.1 (List.all_eq_true.1 hall q (List.mem_range.2 hawaits.lt.2)) with hnot | hlt
        · rw [awaits_iff.1 hawaits] at hnot
          cases hnot
        · exact of_decide_eq_true hlt j
    · rw [inTimeB, hphase] at h
      exact appendsInTime_of_check h
  | _ => trivial

def paidEvent : WakeEvent 1 where
  tenantId := "t1"
  aggregateId := "o1"
  type := "order:event:paid"
  payload := .object [("orderId", .text "o1")]
  change := none

/-- A run waits for the payment of its order, until a second has passed. -/
def waitingEvent : WakeEvent 1 where
  tenantId := "t1"
  aggregateId := "r1"
  type := "kumiko:system:workflow.step.waiting-for-event"
  payload := .object [("eventType", .text "order:event:paid"), ("stepIndex", .number 1)]
  change := some (.suspends ⟨0, 1, none, 1000, some "order:event:paid", some ⟨1, .atom ["orderId"] (.eq (.text "o1"))⟩⟩)

def resumeActs : List (WakeAct 1 1) := [.dispatch 0 ("t1", "r1", 1), .advance 0, .advance 0, .advance 0]

/-- A run is resumed with the event that it waits for, before its time is up. -/
theorem woken_of_run_paid : ∃ s : WakeStore 1 1, (s.now = 5 ∧ s.resumes = [⟨0, some 1, 2⟩]) ∧
    NoLostWakeUp (fun _ => ["order:event:paid"]) s := by
  obtain ⟨s, hr, hs⟩ := exists_run_of_execOk (WakeStore.step fun _ => ["order:event:paid"]) inTimeB
    (initial (m := 1) (n := 1) 0)
    ([.append waitingEvent, .project, .project, .project, .append paidEvent, .wake 0, .wake 0, .wake 0, .wake 0,
      .tick 5] ++ resumeActs)
    (fun s => decide (s.now = 5 ∧ s.resumes = [⟨0, some 1, 2⟩])) (fun s a h => inTime_of_check h)
    (by decide +kernel) (by decide +kernel)
  exact ⟨s, of_decide_eq_true hs, woken_of_run hr⟩

/-- A subscriber that comes to an event before the projection has come to its suspension: the run is left to its
timeout. -/
theorem overtaken_wakeUp : ¬∀ s : WakeStore 1 1, Run (WakeStore.step fun _ => ["order:event:paid"])
    (fun _ _ => True) (initial (m := 1) (n := 1) 0) s → ∀ r ∈ s.resumes, Answered s.log r.position r.trigger r.committedAt := by
  intro h
  obtain ⟨s, hr, hs⟩ := exists_run_of_exec (WakeStore.step fun _ => ["order:event:paid"])
    (initial (m := 1) (n := 1) 0)
    ([.append waitingEvent, .append paidEvent, .wake 0, .wake 0, .wake 0, .project, .project, .project, .project,
      .tick 1001] ++ resumeActs)
    (fun s => decide (s.resumes = [⟨0, none, 2⟩] ∧ awaitsB s.log 0 1 = true)) (by decide +kernel)
  obtain ⟨hresumes, hawaits⟩ := of_decide_eq_true hs
  have hanswered := h s hr ⟨0, none, 2⟩ (by rw [hresumes]; exact List.mem_singleton.2 rfl)
  obtain ⟨x, hnone, -⟩ := hanswered 1 Nat.zero_lt_one Nat.one_lt_two (awaits_iff.2 hawaits)
  cases hnone

end WakeStore

end Kumiko
