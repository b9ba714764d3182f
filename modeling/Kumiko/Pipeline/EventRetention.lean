import Kumiko.Pipeline.Delivery
import Mathlib.Data.List.Dedup

/-!
# Event retention

`pruneEvents` of `pipeline/event-retention.ts`, one transaction: it locks the consumer table against writes,
reads the ids it may delete and the cursors of the consumers that are not disabled, and deletes when no cursor
is behind the highest candidate. What a consumer owes below its cursor is not read.
-/

namespace Kumiko

/-- Reference: `PruneEventsOptions`. Instants are nanoseconds. -/
structure PruneEventsOptions where
  olderThan : Option ℤ
  olderThanDays : Option ℤ
  aggregateTypes : List String
  aggregateIds : Option (List String)
  dryRun : Bool
  batchSize : Option ℤ
  deriving DecidableEq

/-- What `pruneEvents` throws. -/
inductive PruneError
  /-- The options are not usable. -/
  | options (message : String)
  /-- Reference: `ConsumerLagError`. -/
  | consumerLag (laggingConsumer : String) (consumerCursor maxCandidateId : ℕ)

/-- The text of the error. -/
def PruneError.message : PruneError → String
  | options message => message
  | consumerLag laggingConsumer consumerCursor maxCandidateId =>
    s!"Consumer \"{laggingConsumer}\" is behind the prune candidates " ++
      s!"(cursor={consumerCursor}, max candidate event id={maxCandidateId}). " ++
      "Pruning would silently drop deliveries. Catch up, disable, or skip the consumer first."

/-- One day. -/
def nanosecondsPerDay : ℤ := 24 * 3600 * 1000000000

/-- Reference: `resolveCutoff`. -/
def resolveCutoff (options : PruneEventsOptions) (now : ℤ) : Except PruneError ℤ :=
  match options.olderThan with
  | some instant => .ok instant
  | none =>
    match options.olderThanDays with
    | some days =>
      if days ≤ 0 then .error (.options
        "pruneEvents: pass olderThan (Temporal.Instant) or olderThanDays (positive number).")
      else .ok (now - days * nanosecondsPerDay)
    | none => .error (.options
        "pruneEvents: pass olderThan (Temporal.Instant) or olderThanDays (positive number).")

/-- The checks of `pruneEvents` before its transaction, and the cutoff. -/
def checkPruneOptions (options : PruneEventsOptions) (now : ℤ) : Except PruneError ℤ := do
  let cutoff ← resolveCutoff options now
  if options.aggregateTypes.isEmpty then
    throw (.options ("pruneEvents: aggregateTypes is required and must be non-empty. " ++
      "Pruning the event log is destructive — name the aggregate types to delete explicitly."))
  if options.aggregateIds.any (·.isEmpty) then
    throw (.options "pruneEvents: aggregateIds must be non-empty when set.")
  if options.batchSize.any (· < 1) then
    throw (.options "pruneEvents: batchSize must be a positive integer.")
  return cutoff

/-- The ids a prune may delete, from the rows it sees. Reference: step 1 of `pruneEvents`. -/
def selectPruneCandidates (visible : List EventRow) (options : PruneEventsOptions) (cutoff : ℤ) :
    List ℕ :=
  let candidates := (visible.filter fun r =>
    r.aggregateType ∈ options.aggregateTypes && options.aggregateIds.all (r.aggregateId ∈ ·) &&
      (r.createdAt : ℤ) < cutoff).map (·.id)
  match options.batchSize with
  | none => candidates
  | some limit => candidates.take limit.toNat

/-- The highest candidate. Reference: `maxCandidateId` in `pruneEvents`. -/
def maxCandidateId (candidates : List ℕ) : ℕ := candidates.foldl max (candidates.head?.getD 0)

/-- Step 2 of `pruneEvents`: no consumer that is not disabled has its cursor behind the highest
candidate. -/
def checkConsumers (consumers : List (String × ConsumerStateRow)) (candidates : List ℕ) :
    Except PruneError Unit :=
  match (consumers.filter fun c => c.2.status ≠ .disabled).find? fun c =>
      c.2.lastProcessedEventId < maxCandidateId candidates with
  | some c => .error (.consumerLag c.1 c.2.lastProcessedEventId (maxCandidateId candidates))
  | none => .ok ()

/-- How far a prune has come. -/
inductive PrunePhase
  /-- There is no prune. -/
  | idle
  /-- The consumer table is locked. -/
  | locked (options : PruneEventsOptions) (cutoff : ℤ)
  /-- The candidates have been read. -/
  | selected (options : PruneEventsOptions) (candidates : List ℕ)
  /-- No active consumer's cursor is behind them. -/
  | guarded (candidates : List ℕ)
  /-- The rows have been deleted, not yet committed. -/
  | deleted (xid : ℕ) (ids : List ℕ)
  deriving DecidableEq

/-- The steps of a prune. -/
inductive PruneAct
  | lock (options : PruneEventsOptions) (now : ℤ)
  | select
  | guard
  | delete
  | commit
  | abort

/-- A prune commits: what it deleted is gone. -/
def Log.commitPrune (l : Log) (xid : ℕ) (ids : List ℕ) : Log :=
  { l.commit xid with pruned := ids ++ l.pruned }

/-- One step of a prune. A statement that ends it (no candidate, a lagging consumer, a dry run)
leads back to `idle`. Reference: `pruneEvents`. -/
def pruneStep (l : Log) (consumers : List (String × ConsumerStateRow)) (p : PrunePhase) :
    PruneAct → Option (Log × PrunePhase)
  | .lock options now =>
    match p, checkPruneOptions options now with
    | .idle, .ok cutoff => some (l, .locked options cutoff)
    | _, _ => none
  | .select =>
    match p with
    | .locked options cutoff =>
      let candidates := selectPruneCandidates l.visibleRows options cutoff
      some (l, if candidates.isEmpty then .idle else .selected options candidates)
    | _ => none
  | .guard =>
    match p with
    | .selected options candidates =>
      match checkConsumers consumers candidates with
      | .error _ => some (l, .idle)
      | .ok () => some (l, if options.dryRun then .idle else .guarded candidates)
    | _ => none
  | .delete =>
    match p with
    | .guarded candidates =>
      some (l.claim, .deleted l.xacts.nextXid
        ((l.visibleRows.map (·.id)).filter (· ∈ candidates)))
    | _ => none
  | .commit =>
    match p with
    | .deleted xid ids => some (l.commitPrune xid ids, .idle)
    | _ => none
  | .abort =>
    match p with
    | .idle => none
    | .deleted xid _ => some (l.abort xid, .idle)
    | _ => some (l, .idle)

/-- What the steps of a prune do. -/
inductive PruneStep (l : Log) (consumers : List (String × ConsumerStateRow)) :
    PrunePhase → PruneAct → Log → PrunePhase → Prop
  | lock {options : PruneEventsOptions} {now cutoff : ℤ} :
    checkPruneOptions options now = .ok cutoff →
    PruneStep l consumers .idle (.lock options now) l (.locked options cutoff)
  | select {options : PruneEventsOptions} {cutoff : ℤ} :
    PruneStep l consumers (.locked options cutoff) .select l
      (.selected options (selectPruneCandidates l.visibleRows options cutoff))
  | guard {options : PruneEventsOptions} {candidates : List ℕ} :
    checkConsumers consumers candidates = .ok () →
    PruneStep l consumers (.selected options candidates) .guard l (.guarded candidates)
  | delete {candidates : List ℕ} :
    PruneStep l consumers (.guarded candidates) .delete l.claim (.deleted l.xacts.nextXid
      ((l.visibleRows.map (·.id)).filter (· ∈ candidates)))
  | commit {xid : ℕ} {ids : List ℕ} :
    PruneStep l consumers (.deleted xid ids) .commit (l.commitPrune xid ids) .idle
  | abort {xid : ℕ} {ids : List ℕ} :
    PruneStep l consumers (.deleted xid ids) .abort (l.abort xid) .idle
  /-- The prune ends before it has deleted anything. -/
  | stop {p : PrunePhase} {a : PruneAct} :
    (∀ xid ids, p ≠ .deleted xid ids) → PruneStep l consumers p a l .idle

section
variable {l l' : Log} {consumers : List (String × ConsumerStateRow)} {p p' : PrunePhase}
  {a : PruneAct} {candidates : List ℕ} {options : PruneEventsOptions} {cutoff : ℤ} {id : ℕ}

/-- A step goes by one of the rules. -/
theorem PruneStep.of_pruneStep (h : pruneStep l consumers p a = some (l', p')) :
    PruneStep l consumers p a l' p' := by
  cases a with
  | lock options now =>
    simp only [pruneStep] at h
    split at h <;> cases h
    rename_i hc
    exact .lock hc
  | select =>
    simp only [pruneStep] at h
    split at h <;> cases h
    split
    · exact .stop (by rintro _ _ ⟨⟩)
    · exact .select
  | guard =>
    simp only [pruneStep] at h
    split at h
    · rename_i options candidates
      split at h <;> cases h
      · exact .stop (by rintro _ _ ⟨⟩)
      · rename_i hc
        split
        · exact .stop (by rintro _ _ ⟨⟩)
        · exact .guard hc
    · cases h
  | delete =>
    simp only [pruneStep] at h
    split at h <;> cases h
    exact .delete
  | commit =>
    simp only [pruneStep] at h
    split at h <;> cases h
    exact .commit
  | abort =>
    simp only [pruneStep] at h
    split at h <;> cases h
    · exact .abort
    · rename_i hne
      exact .stop hne

/-- The candidates are visible. -/
theorem mem_selectPruneCandidates
    (h : id ∈ selectPruneCandidates l.visibleRows options cutoff) :
    ∃ r ∈ l.visibleRows, r.id = id := by
  have hsub : id ∈ (l.visibleRows.filter fun r => r.aggregateType ∈ options.aggregateTypes &&
      options.aggregateIds.all (r.aggregateId ∈ ·) && (r.createdAt : ℤ) < cutoff).map (·.id) := by
    unfold selectPruneCandidates at h
    dsimp only at h
    split at h
    · exact h
    · exact List.mem_of_mem_take h
  obtain ⟨r, hr, he⟩ := List.mem_map.1 hsub
  exact ⟨r, List.mem_of_mem_filter hr, he⟩

theorem le_foldl_max : ∀ (ids : List ℕ) (m : ℕ), m ≤ ids.foldl max m ∧
    ∀ id ∈ ids, id ≤ ids.foldl max m
  | [], m => ⟨le_refl m, fun _ h => nomatch h⟩
  | i :: ids, m => by
    have ⟨h₁, h₂⟩ := le_foldl_max ids (max m i)
    refine ⟨(le_max_left m i).trans h₁, fun id hid => ?_⟩
    cases hid with
    | head => exact (le_max_right m i).trans h₁
    | tail _ hid => exact h₂ id hid

theorem le_maxCandidateId (h : id ∈ candidates) : id ≤ maxCandidateId candidates :=
  (le_foldl_max candidates _).2 id h

/-- A guard that passes has every active consumer's cursor at or above every candidate. -/
theorem checkConsumers_ok (h : checkConsumers consumers candidates = .ok ()) :
    ∀ c ∈ consumers, c.2.status ≠ .disabled → ∀ id ∈ candidates, id ≤ c.2.lastProcessedEventId := by
  unfold checkConsumers at h
  split at h
  · cases h
  · rename_i hnone
    intro c hc hact id hid
    have := List.find?_eq_none.1 hnone c (List.mem_filter.2 ⟨hc, decide_eq_true hact⟩)
    have hle := le_maxCandidateId hid
    simp only [decide_eq_true_eq] at this
    omega

/-- A committed prune is one more step of the others for everyone else. -/
theorem Log.ext_commitPrune {xid : ℕ} {ids : List ℕ} (hx : l.Reading xid) :
    l.Ext (l.commitPrune xid ids) :=
  have he := Log.ext_commit hx
  ⟨he.xacts, he.nextId, he.rows, he.rows_since, he.draws_since,
    fun _ h => List.mem_append_right _ h⟩

theorem Log.WF.commitPrune {xid : ℕ} {ids : List ℕ} (hw : l.WF) (hx : l.Reading xid) :
    (l.commitPrune xid ids).WF :=
  have h := hw.commit hx
  ⟨h.xacts, h.sorted, h.drawn, h.draw_lt, h.draw_inj, h.nextId_pos, h.writers_lt, h.draw_writer⟩

end

end Kumiko
