import Kumiko.Engine.FieldValues
import Kumiko.Library.Run
import Mathlib.Data.Rat.Cast.Order

/-!
# The attempts of a job

`framework/src/jobs`: BullMQ raises `attemptsMade` by one for each failed attempt and stops at `attempts`;
behind a sequential lock a new job takes the place of the old one and carries what was spent in its data. The
sum of both is what the failures have spent (`Spent`), so the budget is kept in every run, unless the payload
brings a `_priorAttempts` of its own and the job has retries (`retryBudget_iff`).
-/

namespace Kumiko

open Transition

/-! ## Definitions and data -/

/-- Reference: `JobBackoff`. -/
inductive BackoffType where
  | fixed
  | exponential

/-- Reference: `JobBackoff`: a type, or a type with a delay. -/
inductive JobBackoff where
  | plain (type : BackoffType)
  | custom (type : BackoffType) (delayMs : Option ℕ)

/-- Reference: `ConcurrencyMode`. -/
inductive ConcurrencyMode where
  | parallel
  | skip
  | replace
  | debounce
  | sequential
  deriving DecidableEq

inductive OnLimit where
  | skip
  | defer

/-- Reference: `JobDefinition["maxPerTenant"]`. -/
inductive MaxPerTenant where
  | limit (limit : ℕ)
  | options (limit : ℕ) (onLimit : OnLimit) (deferMs : Option ℕ)

/-- What the runner reads of a definition. Reference: `JobDefinition`. -/
structure JobDefinition where
  retries : Option ℕ := none
  backoff : Option JobBackoff := none
  concurrency : Option ConcurrencyMode := none
  maxPerTenant : Option MaxPerTenant := none
  maxDefers : Option ℕ := none

/-- Reference: `ResolvedMaxPerTenant`. -/
structure ResolvedMaxPerTenant where
  limit : ℕ
  onLimit : OnLimit
  deferMs : ℕ

/-- Reference: `resolveMaxPerTenant`. -/
def resolveMaxPerTenant (jobDef : JobDefinition) : Option ResolvedMaxPerTenant :=
  jobDef.maxPerTenant.map fun
    | .limit limit => ⟨limit, .skip, 1000⟩
    | .options limit onLimit deferMs => ⟨limit, onLimit, deferMs.getD 1000⟩

/-- The data of a job by key. -/
abbrev JobData := String → Option JsonValue

/-- `{ ...data, [key]: value }` for a number. -/
def JobData.withNumber (data : JobData) (key : String) (value : ℚ) : JobData :=
  Function.update data key (some (.prim (.number value)))

/-- What the enqueuing code adds to a payload. -/
structure EnqueueMeta where
  triggeredById : Option String := none
  payload : Option String := none
  traceContext : Option JsonValue := none
  correlationId : Option String := none
  /-- The ambient write origin, where it is gated. -/
  gatedWriteOrigin : Option JsonValue := none

/-- Reference: `buildEnqueueInputs` with `stampGatedWriteOrigin`. -/
def buildEnqueueInputs (payload : JobData) (jobMeta : EnqueueMeta) : JobData := fun key =>
  if key = "_writeOrigin" then jobMeta.gatedWriteOrigin
  else if key = "_correlationId" ∧ jobMeta.correlationId.isSome then
    jobMeta.correlationId.map fun s => .prim (.string s)
  else if key = "_traceContext" ∧ jobMeta.traceContext.isSome then jobMeta.traceContext
  else if key = "_payload" ∧ jobMeta.payload.isSome then jobMeta.payload.map fun s => .prim (.string s)
  else if key = "_triggeredById" ∧ jobMeta.triggeredById.isSome then
    jobMeta.triggeredById.map fun s => .prim (.string s)
  else payload key

/-- Reference: `priorAttemptsOf`. -/
def priorAttemptsOf (data : JobData) : ℕ :=
  match data "_priorAttempts" with
  | some (.prim (.number value)) => if value.den = 1 ∧ 0 < value then value.num.toNat else 0
  | _ => 0

/-- Reference: `priorDeferCountOf`. -/
def priorDeferCountOf (data : JobData) (key : String) : ℚ :=
  match data key with
  | some (.prim (.number prior)) => prior
  | _ => 0

/-- Reference: `hasDeferBudgetLeft`, with `DEFAULT_MAX_DEFERS`. -/
def hasDeferBudgetLeft (data : JobData) (maxDefers : Option ℕ) : Bool :=
  priorDeferCountOf data "_handlerDeferCount" < maxDefers.getD 100

/-- Reference: `Pick<JobsOptions, "attempts" | "backoff">`. -/
structure RetryBullOpts where
  attempts : Option ℕ
  backoff : Option (BackoffType × ℕ)

/-- Reference: `buildRetryBullOpts`, with `DEFAULT_JOB_BACKOFF_DELAY_MS`. -/
def buildRetryBullOpts (jobDef : JobDefinition) (priorAttempts : ℕ) : RetryBullOpts where
  attempts := jobDef.retries.map fun retries => max 1 (retries + 1 - priorAttempts)
  backoff := jobDef.backoff.map fun
    | .plain type => (type, 1000)
    | .custom type delayMs => (type, delayMs.getD 1000)

/-- A job of the queue; `retryable` is missing there. Reference: `JobInvocation` and its options. -/
structure BullJob where
  id : ℕ
  data : JobData
  attemptsMade : ℕ
  retryable : Option Bool := none
  opts : RetryBullOpts

/-- Reference: `attemptNumberOf`. -/
def attemptNumberOf (bullJob : BullJob) : ℕ := bullJob.attemptsMade + 1 + priorAttemptsOf bullJob.data

/-- Reference: `isFinalAttempt`. -/
def isFinalAttempt (bullJob : BullJob) (jobDef : JobDefinition) : Bool :=
  bullJob.retryable = some false || attemptNumberOf bullJob ≥ jobDef.retries.getD 0 + 1

/-! ## The gates -/

/-- How a run goes: it throws before or in the handler, for good or not, or its handler returns. -/
inductive RunOutcome where
  | succeeds
  | defers
  | throws
  | throwsUnrecoverable

/-- What a pickup meets. -/
structure Pickup where
  /-- Reference: `isOverPerTenantLimit`. -/
  overLimit : Bool
  /-- The sequential lock is not acquired. -/
  lockTaken : Bool
  outcome : RunOutcome

/-- The data of a job that waits for its tenant's other runs. Reference: `deferOverTenantLimit`. -/
def deferOverTenantLimit (jobDef : JobDefinition) (bullJob : BullJob) (overLimit : Bool) : Option JobData :=
  match resolveMaxPerTenant jobDef, bullJob.data "_tenantId" with
  | some ⟨_, .defer, _⟩, some (.prim (.string _)) =>
    if overLimit then
      some (bullJob.data.withNumber "_deferCount" (priorDeferCountOf bullJob.data "_deferCount" + 1))
    else none
  | _, _ => none

/-- The data and the options of the job that takes the place of one behind the lock. Reference:
`requeueBehindSequentialLock`. -/
def requeueBehindSequentialLock (jobDef : JobDefinition) (bullJob : BullJob) : JobData × RetryBullOpts :=
  let priorAttempts := priorAttemptsOf bullJob.data + bullJob.attemptsMade
  (bullJob.data.withNumber "_priorAttempts" priorAttempts, buildRetryBullOpts jobDef priorAttempts)

/-- The job in whose place this one goes, or none to run it. Reference: `claimSequentialSlot`. -/
def claimSequentialSlot (jobDef : JobDefinition) (bullJob : BullJob) (lockTaken : Bool) :
    Option (JobData × RetryBullOpts) :=
  if jobDef.concurrency = some .sequential ∧ lockTaken then some (requeueBehindSequentialLock jobDef bullJob)
  else none

/-- What the run log gets of a run. -/
inductive RunResult where
  | succeeded
  | deferred
  | failed
  | unrecoverable
  deriving DecidableEq

structure RunReport where
  attempt : ℕ
  finalAttempt : Bool
  result : RunResult

/-- A handler that defers without a budget left fails for good. Reference: `runAndRecordJob` with
`assertDeferBudget`. -/
def runResult (jobDef : JobDefinition) (bullJob : BullJob) : RunOutcome → RunResult
  | .succeeds => .succeeded
  | .defers => if hasDeferBudgetLeft bullJob.data jobDef.maxDefers then .deferred else .unrecoverable
  | .throws => .failed
  | .throwsUnrecoverable => .unrecoverable

/-- Reference: `prepareJobRun`, `buildOutcomeMeta`. -/
def runReport (jobDef : JobDefinition) (bullJob : BullJob) (outcome : RunOutcome) : RunReport where
  attempt := attemptNumberOf bullJob
  finalAttempt := isFinalAttempt bullJob jobDef || runResult jobDef bullJob outcome = .unrecoverable
  result := runResult jobDef bullJob outcome

/-- Reference: `applyHandlerDeferral`. -/
def applyHandlerDeferral (bullJob : BullJob) : BullJob :=
  { bullJob with
    data := bullJob.data.withNumber "_handlerDeferCount"
      (priorDeferCountOf bullJob.data "_handlerDeferCount" + 1) }

/-! ## The queue -/

/-- The jobs of one enqueued job that wait or are delayed, and what was reported of their runs, the newest first. -/
structure JobQueue where
  jobs : List BullJob
  nextId : ℕ
  reports : List RunReport

namespace JobQueue

def add (q : JobQueue) (data : JobData) (opts : RetryBullOpts) : JobQueue :=
  { q with jobs := q.jobs ++ [{ id := q.nextId, data, attemptsMade := 0, opts }], nextId := q.nextId + 1 }

/-- The job completes or fails for good. -/
def remove (q : JobQueue) (id : ℕ) : JobQueue := { q with jobs := q.jobs.filter (·.id ≠ id) }

/-- The job goes back with what has changed of it. -/
def put (q : JobQueue) (bullJob : BullJob) : JobQueue :=
  { q with jobs := q.jobs.map fun j => if j.id = bullJob.id then bullJob else j }

/-- A failed attempt: BullMQ retries the job while its attempts last, one of them where the option is missing. -/
def fail (q : JobQueue) (bullJob : BullJob) : JobQueue :=
  if bullJob.attemptsMade + 1 < bullJob.opts.attempts.getD 1 then
    q.put { bullJob with attemptsMade := bullJob.attemptsMade + 1 }
  else q.remove bullJob.id

def report (q : JobQueue) (r : RunReport) : JobQueue := { q with reports := r :: q.reports }

/-- Reference: `handleJobInScope`, and what BullMQ makes of its end. -/
def handleJob (jobDef : JobDefinition) (q : JobQueue) (bullJob : BullJob) (pickup : Pickup) : JobQueue :=
  match deferOverTenantLimit jobDef bullJob pickup.overLimit with
  | some data => q.put { bullJob with data }
  | none =>
    match claimSequentialSlot jobDef bullJob pickup.lockTaken with
    | some (data, opts) => (q.add data opts).remove bullJob.id
    | none =>
      let reported := q.report (runReport jobDef bullJob pickup.outcome)
      match runResult jobDef bullJob pickup.outcome with
      | .succeeded | .unrecoverable => reported.remove bullJob.id
      | .deferred => reported.put (applyHandlerDeferral bullJob)
      | .failed => reported.fail bullJob

/-- A worker picks up a job of the queue. -/
def step (jobDef : JobDefinition) (q : JobQueue) (act : ℕ × Pickup) : Option JobQueue :=
  (q.jobs.find? (·.id = act.1)).map fun bullJob => handleJob jobDef q bullJob act.2

/-- The queue with the job as it was enqueued. Reference: `dispatch`. -/
def dispatched (jobDef : JobDefinition) (payload : JobData) (jobMeta : EnqueueMeta) : JobQueue :=
  add ⟨[], 0, []⟩ (buildEnqueueInputs payload jobMeta) (buildRetryBullOpts jobDef 0)

/-- How many runs have failed; those that failed for good aside. -/
def failures (reports : List RunReport) : ℕ := reports.countP (·.result = .failed)

/-- How many runs have failed, for good or not. -/
def allFailures (reports : List RunReport) : ℕ :=
  reports.countP fun r => r.result = .failed || r.result = .unrecoverable

/-- Nothing is run behind this report. -/
def endsJob (r : RunReport) : Bool :=
  r.result = .succeeded || r.result = .unrecoverable || (r.result = .failed && r.finalAttempt)

/-- The job is run to its end once, within its retries, and says which attempt each run is. -/
structure BudgetKept (jobDef : JobDefinition) (q : JobQueue) : Prop where
  failures : allFailures q.reports ≤ jobDef.retries.getD 0 + 1
  attempts : q.reports.Pairwise fun newer older =>
    older.attempt ≤ newer.attempt ∧ (older.result = .failed → older.attempt < newer.attempt)
  final : ∀ newer r older, q.reports = newer ++ r :: older → r.result = .failed →
    (r.finalAttempt = true ↔ newer = [] ∧ q.jobs = [])
  /-- There is one job, also behind a deferral or a requeue, until a report ends it. -/
  once : q.jobs.length = 1 ∨ q.jobs = [] ∧ ∃ r older, q.reports = r :: older ∧ endsJob r = true

end JobQueue

/-! ## What the data says -/

section
variable {data : JobData} {jobDef : JobDefinition} {bullJob : BullJob}

theorem priorAttemptsOf_withNumber (data : JobData) (n : ℕ) :
    priorAttemptsOf (data.withNumber "_priorAttempts" n) = n := by
  simp only [priorAttemptsOf, JobData.withNumber, Function.update_self, Rat.den_natCast, Rat.num_natCast,
    Nat.cast_pos, true_and, Int.toNat_natCast]
  split <;> omega

theorem priorAttemptsOf_withNumber_of_ne {key : String} {value : ℚ} (h : key ≠ "_priorAttempts") :
    priorAttemptsOf (data.withNumber key value) = priorAttemptsOf data := by
  simp only [priorAttemptsOf, JobData.withNumber, Function.update_of_ne h.symm]

/-- The payload's own key reaches the worker. -/
theorem priorAttemptsOf_buildEnqueueInputs (payload : JobData) (jobMeta : EnqueueMeta) :
    priorAttemptsOf (buildEnqueueInputs payload jobMeta) = priorAttemptsOf payload := by
  simp [priorAttemptsOf, buildEnqueueInputs]

/-- A deferral over the tenant limit spends nothing. -/
theorem priorAttemptsOf_deferOverTenantLimit {overLimit : Bool}
    (h : deferOverTenantLimit jobDef bullJob overLimit = some data) :
    priorAttemptsOf data = priorAttemptsOf bullJob.data := by
  unfold deferOverTenantLimit at h
  split at h
  · split at h
    · cases h
      exact priorAttemptsOf_withNumber_of_ne (by decide)
    · cases h
  · cases h

theorem priorAttemptsOf_applyHandlerDeferral :
    priorAttemptsOf (applyHandlerDeferral bullJob).data = priorAttemptsOf bullJob.data :=
  priorAttemptsOf_withNumber_of_ne (by decide)

end

/-! ## The budget -/

namespace JobQueue

section
variable {jobDef : JobDefinition} {q q' : JobQueue} {bullJob : BullJob} {pickup : Pickup} {act : ℕ × Pickup}
  {reports older : List RunReport} {r : RunReport} {p n : ℕ}

/-- The job has spent `n` of its retries, of which `prior` in the jobs before it; `p` came with the payload. -/
structure Spent (jobDef : JobDefinition) (p n : ℕ) (bullJob : BullJob) : Prop where
  within : n ≤ jobDef.retries.getD 0
  sum : priorAttemptsOf bullJob.data + bullJob.attemptsMade = p + n
  prior : p ≤ priorAttemptsOf bullJob.data
  attempts : bullJob.opts.attempts.getD 1 + priorAttemptsOf bullJob.data = jobDef.retries.getD 0 + 1 + p
  retryable : bullJob.retryable = none

/-- Reports with the attempts they are of: none behind one that ends the job. -/
def Sound (jobDef : JobDefinition) (p : ℕ) : List RunReport → Prop
  | [] => True
  | r :: older =>
    Sound jobDef p older ∧ (∀ r' ∈ older, endsJob r' = false) ∧ r.attempt = p + failures older + 1 ∧
      failures older ≤ jobDef.retries.getD 0 ∧
      (r.result = .failed → (r.finalAttempt = true ↔ jobDef.retries.getD 0 ≤ failures older))

/-- The job in the queue has spent what the reports say, or the last report has ended it. -/
structure BudgetInv (jobDef : JobDefinition) (p : ℕ) (q : JobQueue) : Prop where
  sound : Sound jobDef p q.reports
  live : (∃ bullJob, q.jobs = [bullJob] ∧ bullJob.id < q.nextId ∧ Spent jobDef p (failures q.reports) bullJob ∧
      ∀ r ∈ q.reports, endsJob r = false) ∨
    q.jobs = [] ∧ ∃ r older, q.reports = r :: older ∧ endsJob r = true

@[simp] theorem failures_cons : failures (r :: older) = failures older + if r.result = .failed then 1 else 0 := by
  simp [failures, List.countP_cons]

/-- The number a run reports is one more than what is spent. -/
theorem Spent.attemptNumberOf (h : Spent jobDef p n bullJob) : attemptNumberOf bullJob = p + n + 1 := by
  have := h.sum
  unfold Kumiko.attemptNumberOf
  omega

theorem Spent.isFinalAttempt (h : Spent jobDef p n bullJob) (hp : p = 0 ∨ jobDef.retries.getD 0 = 0) :
    isFinalAttempt bullJob jobDef = true ↔ jobDef.retries.getD 0 ≤ n := by
  rw [Kumiko.isFinalAttempt, h.retryable, h.attemptNumberOf]
  simp only [reduceCtorEq, decide_false, Bool.false_or, ge_iff_le, decide_eq_true_eq]
  have := h.within
  omega

/-- A deferral changes neither counter. -/
theorem Spent.congr {bullJob' : BullJob} (h : Spent jobDef p n bullJob)
    (hd : priorAttemptsOf bullJob'.data = priorAttemptsOf bullJob.data)
    (ha : bullJob'.attemptsMade = bullJob.attemptsMade) (hr : bullJob'.retryable = bullJob.retryable)
    (ho : bullJob'.opts = bullJob.opts) : Spent jobDef p n bullJob' :=
  ⟨h.within, by rw [hd, ha]; exact h.sum, by rw [hd]; exact h.prior, by rw [hd, ho]; exact h.attempts,
    hr.trans h.retryable⟩

/-- The job that takes another one's place has spent what that one had. -/
theorem Spent.requeued (h : Spent jobDef p n bullJob) (hp : p = 0 ∨ jobDef.retries.getD 0 = 0) (id : ℕ) :
    Spent jobDef p n
      { id, data := (requeueBehindSequentialLock jobDef bullJob).1, attemptsMade := 0,
        opts := (requeueBehindSequentialLock jobDef bullJob).2 } := by
  have hprior : priorAttemptsOf (requeueBehindSequentialLock jobDef bullJob).1 = p + n :=
    (priorAttemptsOf_withNumber bullJob.data (priorAttemptsOf bullJob.data + bullJob.attemptsMade)).trans h.sum
  have hwithin := h.within
  refine ⟨hwithin, hprior, ?_, ?_, rfl⟩
  · show p ≤ priorAttemptsOf (requeueBehindSequentialLock jobDef bullJob).1
    omega
  show (requeueBehindSequentialLock jobDef bullJob).2.attempts.getD 1 +
    priorAttemptsOf (requeueBehindSequentialLock jobDef bullJob).1 = jobDef.retries.getD 0 + 1 + p
  rw [hprior]
  dsimp only [requeueBehindSequentialLock, buildRetryBullOpts]
  rw [h.sum]
  cases hr : jobDef.retries with
  | none =>
    rw [hr] at hwithin
    simp only [Option.getD_none, Option.map_none] at hwithin ⊢
    omega
  | some retries =>
    rw [hr] at hwithin hp
    simp only [Option.getD_some, Option.map_some] at hwithin hp ⊢
    omega

/-- A failed attempt spends one, and the job goes back exactly while one is left. -/
theorem Spent.failed (h : Spent jobDef p n bullJob) :
    (bullJob.attemptsMade + 1 < bullJob.opts.attempts.getD 1 ↔ n < jobDef.retries.getD 0) ∧
      (n < jobDef.retries.getD 0 →
        Spent jobDef p (n + 1) { bullJob with attemptsMade := bullJob.attemptsMade + 1 }) := by
  have hsum := h.sum
  have hattempts := h.attempts
  refine ⟨by omega, fun hn => ⟨hn, ?_, h.prior, hattempts, h.retryable⟩⟩
  show priorAttemptsOf bullJob.data + (bullJob.attemptsMade + 1) = p + (n + 1)
  omega

theorem jobs_put (h : q.jobs = [bullJob]) {bullJob' : BullJob} (hid : bullJob'.id = bullJob.id) :
    (q.put bullJob').jobs = [bullJob'] := by
  simp [put, h, hid]

theorem jobs_remove (h : q.jobs = [bullJob]) : (q.remove bullJob.id).jobs = [] := by
  simp [remove, h]

/-- The one job of the queue is the one that is picked up. -/
theorem eq_of_find? {id : ℕ} (h : q.jobs = [bullJob]) {picked : BullJob}
    (hf : q.jobs.find? (·.id = id) = some picked) : picked = bullJob := by
  rw [h] at hf
  exact List.mem_singleton.1 (List.mem_of_find?_eq_some hf)

/-- The report of a run stands behind those of the runs before it. -/
theorem Sound.report (h : Sound jobDef p q.reports) (hs : Spent jobDef p (failures q.reports) bullJob)
    (hopen : ∀ r ∈ q.reports, endsJob r = false) (hp : p = 0 ∨ jobDef.retries.getD 0 = 0) (outcome : RunOutcome) :
    Sound jobDef p (q.report (runReport jobDef bullJob outcome)).reports := by
  refine ⟨h, hopen, hs.attemptNumberOf, hs.within, fun hfailed => ?_⟩
  have hresult : runResult jobDef bullJob outcome = .failed := hfailed
  rw [← hs.isFinalAttempt hp]
  simp [runReport, hresult]

theorem BudgetInv.handleJob (h : BudgetInv jobDef p q) (hp : p = 0 ∨ jobDef.retries.getD 0 = 0)
    (hjob : q.jobs = [bullJob]) (pickup : Pickup) : BudgetInv jobDef p (handleJob jobDef q bullJob pickup) := by
  obtain ⟨bullJob', hjob', hlt, hspent, hopen⟩ | ⟨hnone, -⟩ := h.live
  swap
  · rw [hjob] at hnone
    cases hnone
  obtain rfl : bullJob' = bullJob := by
    rw [hjob] at hjob'
    exact (List.singleton_injective hjob').symm
  unfold JobQueue.handleJob
  cases hdefer : deferOverTenantLimit jobDef bullJob' pickup.overLimit with
  | some data =>
    refine ⟨h.sound, .inl ⟨{ bullJob' with data }, jobs_put hjob rfl, hlt, ?_, hopen⟩⟩
    exact hspent.congr (priorAttemptsOf_deferOverTenantLimit hdefer) rfl rfl rfl
  | none =>
    cases hclaim : claimSequentialSlot jobDef bullJob' pickup.lockTaken with
    | some requeued =>
      obtain ⟨data, opts⟩ := requeued
      have hrequeued : requeueBehindSequentialLock jobDef bullJob' = (data, opts) := by
        unfold claimSequentialSlot at hclaim
        split at hclaim
        · exact Option.some.inj hclaim
        · cases hclaim
      have hspent' := hspent.requeued hp q.nextId
      rw [hrequeued] at hspent'
      refine ⟨h.sound, .inl ⟨_, ?_, Nat.lt_succ_self _, hspent', hopen⟩⟩
      have hne : q.nextId ≠ bullJob'.id := by omega
      simp [remove, add, hjob, hne]
    | none =>
      have hsound := h.sound.report hspent hopen hp pickup.outcome
      dsimp only
      cases hresult : runResult jobDef bullJob' pickup.outcome with
      | succeeded | unrecoverable =>
        refine ⟨hsound, .inr ⟨jobs_remove hjob, _, _, rfl, ?_⟩⟩
        simp [endsJob, runReport, hresult]
      | deferred =>
        refine ⟨hsound, .inl ⟨applyHandlerDeferral bullJob', jobs_put hjob rfl, hlt, ?_, ?_⟩⟩
        · have hn : failures (q.report (runReport jobDef bullJob' pickup.outcome)).reports = failures q.reports := by
            simp [report, runReport, hresult]
          refine (congrArg (fun n => Spent jobDef p n (applyHandlerDeferral bullJob')) hn).mpr ?_
          exact hspent.congr priorAttemptsOf_applyHandlerDeferral rfl rfl rfl
        · intro r hr
          rcases List.mem_cons.1 hr with rfl | hr
          · simp [endsJob, runReport, hresult]
          · exact hopen r hr
      | failed =>
        obtain ⟨hretry, hfailed⟩ := hspent.failed
        have hfinal := hspent.isFinalAttempt hp
        dsimp only [JobQueue.fail]
        split
        · -- an attempt is left: the report is not final
          rename_i hleft
          have hn := hretry.1 hleft
          refine ⟨hsound, .inl ⟨_, jobs_put hjob rfl, hlt, ?_, ?_⟩⟩
          · have hcount : failures (q.report (runReport jobDef bullJob' pickup.outcome)).reports =
                failures q.reports + 1 := by simp [report, runReport, hresult]
            exact hcount ▸ hfailed hn
          · intro r hr
            rcases List.mem_cons.1 hr with rfl | hr
            · have hnot : isFinalAttempt bullJob' jobDef = false := by
                rw [← Bool.not_eq_true, hfinal]
                omega
              simp [endsJob, runReport, hresult, hnot]
            · exact hopen r hr
        · rename_i hspentAll
          have hlast : isFinalAttempt bullJob' jobDef = true := by
            rw [hfinal]
            have := mt hretry.2 hspentAll
            omega
          refine ⟨hsound, .inr ⟨jobs_remove hjob, _, _, rfl, ?_⟩⟩
          simp [endsJob, runReport, hresult, hlast]

theorem BudgetInv.step (h : BudgetInv jobDef p q) (hp : p = 0 ∨ jobDef.retries.getD 0 = 0)
    (hstep : step jobDef q act = some q') : BudgetInv jobDef p q' := by
  obtain ⟨picked, hpicked, rfl⟩ := Option.map_eq_some_iff.1 hstep
  obtain ⟨bullJob, hjob, -⟩ | ⟨hnone, -⟩ := h.live
  · rw [eq_of_find? hjob hpicked]
    exact h.handleJob hp hjob act.2
  · rw [hnone] at hpicked
    cases hpicked

/-- An enqueued job has spent nothing, and what its payload says. -/
theorem BudgetInv.dispatched (jobDef : JobDefinition) (payload : JobData) (jobMeta : EnqueueMeta) :
    BudgetInv jobDef (priorAttemptsOf payload) (dispatched jobDef payload jobMeta) := by
  have hprior := priorAttemptsOf_buildEnqueueInputs payload jobMeta
  refine ⟨trivial, .inl ⟨_, rfl, Nat.zero_lt_one, ⟨Nat.zero_le _, hprior, hprior.ge, ?_, rfl⟩, ?_⟩⟩
  · show (buildRetryBullOpts jobDef 0).attempts.getD 1 + priorAttemptsOf (buildEnqueueInputs payload jobMeta) = _
    rw [hprior]
    cases hr : jobDef.retries with
    | none => simp only [buildRetryBullOpts, hr, Option.map_none, Option.getD_none]
    | some retries =>
      simp only [buildRetryBullOpts, hr, Option.map_some, Option.getD_some]
      omega
  · intro r hr
    cases hr

/-- A failure for good is the last run. -/
theorem Sound.failures_le (h : Sound jobDef p reports) : allFailures reports ≤ jobDef.retries.getD 0 + 1 := by
  cases reports with
  | nil => exact Nat.zero_le _
  | cons r older =>
    obtain ⟨-, hopen, -, hlt, -⟩ := h
    have holder : allFailures older = failures older := List.countP_congr fun r' hr' => by
      have hends := hopen r' hr'
      simp only [endsJob, Bool.or_eq_false_iff] at hends
      simp [hends.1.2]
    rw [allFailures, List.countP_cons, ← allFailures, holder]
    split <;> omega

/-- The attempts reported so far lie below what is spent. -/
theorem Sound.attempt_le (h : Sound jobDef p reports) (hr : r ∈ reports) :
    r.attempt ≤ p + failures reports + 1 ∧ (r.result = .failed → r.attempt ≤ p + failures reports) := by
  induction reports with
  | nil => cases hr
  | cons newest older ih =>
    obtain ⟨hsound, -, hattempt, -⟩ := h
    rw [failures_cons]
    rcases List.mem_cons.1 hr with rfl | hr
    · refine ⟨by omega, fun hfailed => ?_⟩
      rw [if_pos hfailed]
      omega
    · obtain ⟨hle, hlt⟩ := ih hsound hr
      exact ⟨by omega, fun hfailed => by have := hlt hfailed; omega⟩

theorem Sound.pairwise (h : Sound jobDef p reports) : reports.Pairwise fun newer older =>
    older.attempt ≤ newer.attempt ∧ (older.result = .failed → older.attempt < newer.attempt) := by
  induction reports with
  | nil => exact .nil
  | cons newest older ih =>
    obtain ⟨hsound, -, hattempt, -⟩ := h
    refine .cons (fun r hr => ?_) (ih hsound)
    obtain ⟨hle, hlt⟩ := hsound.attempt_le hr
    exact ⟨by omega, fun hfailed => by have := hlt hfailed; omega⟩

/-- A report with another one behind it has not ended the job. -/
theorem Sound.endsJob_eq_false {newest : RunReport} {newer : List RunReport}
    (h : Sound jobDef p (newest :: newer ++ r :: older)) : endsJob r = false :=
  h.2.1 r (List.mem_append_right _ List.mem_cons_self)

theorem BudgetInv.budgetKept (h : BudgetInv jobDef p q) : BudgetKept jobDef q := by
  refine ⟨h.sound.failures_le, h.sound.pairwise, fun newer r older hreports hfailed => ?_, ?_⟩
  · have hends : endsJob r = r.finalAttempt := by simp [endsJob, hfailed]
    cases newer with
    | nil =>
      rw [List.nil_append] at hreports
      obtain ⟨bullJob, hjob, -, -, hopen⟩ | ⟨hnone, r', older', hreports', hended⟩ := h.live
      · have hlive := hopen r (hreports ▸ List.mem_cons_self)
        rw [← hends, hlive, hjob]
        simp
      · obtain ⟨rfl, -⟩ := List.cons.inj (hreports.symm.trans hreports')
        rw [← hends, hended]
        simp [hnone]
    | cons newest newer =>
      have hsound := h.sound
      rw [hreports] at hsound
      rw [← hends, hsound.endsJob_eq_false]
      simp
  · obtain ⟨bullJob, hjob, -⟩ | hended := h.live
    · exact .inl (by rw [hjob]; rfl)
    · exact .inr hended

/-! ## A payload that names prior attempts -/

/-- Neither gate stops the run, and its handler throws. -/
def throwing : Pickup := ⟨false, false, .throws⟩

theorem handleJob_throwing :
    handleJob jobDef q bullJob throwing = (q.report (runReport jobDef bullJob .throws)).fail bullJob := by
  have hdefer : deferOverTenantLimit jobDef bullJob false = none := by
    unfold deferOverTenantLimit
    split <;> simp
  have hclaim : claimSequentialSlot jobDef bullJob false = none := by simp [claimSequentialSlot]
  simp only [handleJob, throwing, hdefer, hclaim, runResult]

/-- The enqueued job after `n` failures. -/
def failedJob (jobDef : JobDefinition) (payload : JobData) (jobMeta : EnqueueMeta) (n : ℕ) : BullJob where
  id := 0
  data := buildEnqueueInputs payload jobMeta
  attemptsMade := n
  opts := buildRetryBullOpts jobDef 0

variable {payload : JobData} {jobMeta : EnqueueMeta}

/-- While retries are left, a failure is retried. -/
theorem step_failedJob (hjob : q.jobs = [failedJob jobDef payload jobMeta n]) (hn : n < jobDef.retries.getD 0) :
    ∃ q', step jobDef q (0, throwing) = some q' ∧ q'.jobs = [failedJob jobDef payload jobMeta (n + 1)] ∧
      q'.reports = runReport jobDef (failedJob jobDef payload jobMeta n) .throws :: q.reports := by
  have hleft : n + 1 < (buildRetryBullOpts jobDef 0).attempts.getD 1 := by
    cases hr : jobDef.retries with
    | none => simp [hr] at hn
    | some retries =>
      simp only [hr, Option.getD_some] at hn
      simp only [buildRetryBullOpts, hr, Option.map_some, Option.getD_some]
      omega
  refine ⟨(q.report (runReport jobDef (failedJob jobDef payload jobMeta n) .throws)).put
    (failedJob jobDef payload jobMeta (n + 1)), ?_, jobs_put hjob rfl, rfl⟩
  have hfind : q.jobs.find? (·.id = 0) = some (failedJob jobDef payload jobMeta n) := by simp [hjob, failedJob]
  rw [step, hfind, Option.map_some, handleJob_throwing, fail]
  exact congrArg some (if_pos hleft)

/-- Up to `retries` failures leave the job in the queue. -/
theorem exists_run_failedJob (payload : JobData) (jobMeta : EnqueueMeta) (hn : n ≤ jobDef.retries.getD 0) :
    ∃ q, Run (step jobDef) (fun _ _ => True) (dispatched jobDef payload jobMeta) q ∧
      q.jobs = [failedJob jobDef payload jobMeta n] := by
  induction n with
  | zero => exact ⟨_, .start, rfl⟩
  | succ n ih =>
    obtain ⟨q, hrun, hjob⟩ := ih (by omega)
    obtain ⟨q', hstep, hjob', -⟩ := step_failedJob hjob (by omega)
    exact ⟨q', .next hrun trivial hstep, hjob'⟩

/-- An attempt that reports itself final is retried all the same. -/
theorem exists_final_retried (jobMeta : EnqueueMeta) (hp : 0 < priorAttemptsOf payload) (hr : 0 < jobDef.retries.getD 0) :
    ∃ q, Run (step jobDef) (fun _ _ => True) (dispatched jobDef payload jobMeta) q ∧ ¬ BudgetKept jobDef q := by
  -- the attempt whose number, the payload's with it, is the last one
  obtain ⟨q, hrun, hjob⟩ := exists_run_failedJob payload jobMeta
    (show jobDef.retries.getD 0 - priorAttemptsOf payload ≤ jobDef.retries.getD 0 by omega)
  obtain ⟨q', hstep, hjob', hreports⟩ := step_failedJob hjob (by omega)
  refine ⟨q', .next hrun trivial hstep, fun hkept => ?_⟩
  have hfinal : (runReport jobDef (failedJob jobDef payload jobMeta
      (jobDef.retries.getD 0 - priorAttemptsOf payload)) .throws).finalAttempt = true := by
    have hprior := priorAttemptsOf_buildEnqueueInputs payload jobMeta
    simp only [runReport, Kumiko.isFinalAttempt, Kumiko.attemptNumberOf, failedJob, hprior, Bool.or_eq_true,
      decide_eq_true_eq]
    exact .inl (.inr (by omega))
  obtain ⟨-, hnone⟩ := (hkept.final [] _ _ hreports rfl).1 hfinal
  rw [hjob'] at hnone
  cases hnone

end

/-- The budget is kept in every run of an enqueued job exactly if its payload names no prior attempts, or the job has
no retries. -/
theorem retryBudget_iff (jobDef : JobDefinition) (payload : JobData) (jobMeta : EnqueueMeta) :
    (∀ q, Run (step jobDef) (fun _ _ => True) (dispatched jobDef payload jobMeta) q → BudgetKept jobDef q) ↔
      priorAttemptsOf payload = 0 ∨ jobDef.retries.getD 0 = 0 := by
  constructor
  · intro hall
    by_contra hnot
    obtain ⟨hp, hr⟩ := not_or.1 hnot
    obtain ⟨q, hrun, hbroken⟩ := exists_final_retried jobMeta
      (Nat.pos_of_ne_zero hp) (Nat.pos_of_ne_zero hr)
    exact hbroken (hall q hrun)
  · intro hp q hrun
    have hinv := hrun.invariant (BudgetInv.dispatched jobDef payload jobMeta)
      fun _ _ _ h _ hstep => BudgetInv.step h hp hstep
    exact hinv.budgetKept

/-- A payload with one prior attempt, for a job with one retry: the first run is reported as the second and last one,
and its failure is retried. -/
theorem not_retryBudget : ¬ ∀ (jobDef : JobDefinition) (payload : JobData) (jobMeta : EnqueueMeta) (q : JobQueue),
    Run (step jobDef) (fun _ _ => True) (dispatched jobDef payload jobMeta) q → BudgetKept jobDef q := by
  intro hall
  let payload : JobData := fun key => if key = "_priorAttempts" then some (.prim (.number 1)) else none
  let q : JobQueue := dispatched { retries := some 1 } payload {}
  have hstep : step { retries := some 1 } q (0, throwing) = some
      ⟨[failedJob { retries := some 1 } payload {} 1], 1, [⟨2, true, .failed⟩]⟩ := by
    rfl
  have hkept := hall _ _ _ _ (.next .start trivial hstep)
  obtain ⟨-, hnone⟩ := (hkept.final [] _ _ rfl rfl).1 rfl
  cases hnone

end JobQueue

end Kumiko
