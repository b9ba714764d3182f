import Kumiko.Db.ExecutorVerbs
import Kumiko.EventStore.TransferStreams
import Kumiko.Library.UuidText

/-!
# The stream tenant backfill

`shared/stream-tenant-backfill.ts`: the events of an aggregate, wherever they are, become one stream of its
tenant in the order of their ids, an aggregate to a transaction. A move can fail for a key that an event of
another aggregate holds, and that aggregate may leave later in the run; so a second run moves what the first
could not (`not_backfillIsMerge`), but nothing that it has moved (`streams_merged`).
-/

namespace Kumiko

/-! ## Ids as text -/

def hexText (n : ℕ) : Char := if n < 10 then Char.ofNat ('0'.toNat + n) else Char.ofNat ('a'.toNat + (n - 10))

/-- The text of a `uuid`. Reference: `uuid_out` of PostgreSQL. -/
def uuidOut (bytes : List ℕ) : String :=
  String.ofList (bytes.zipIdx.flatMap fun (b, i) =>
    (if i ∈ [4, 6, 8, 10] then ['-'] else []) ++ [hexText (b / 16), hexText (b % 16)])

/-- Reference: `$1::uuid`. A column of that type holds the text that the database prints of it. -/
def asUuid (text : String) : Except String String :=
  match uuidIn text with
  | some bytes => .ok (uuidOut bytes)
  | none => .error ("invalid input syntax for type uuid: \"" ++ text ++ "\"")

/-! ## The tables -/

/-- A row of `kumiko_archived_streams`. -/
structure ArchivedMarker extends ArchivedStreamRow where
  archivedAt : ℕ
  archivedBy : String
  reason : Option String

/-- The tables of the event store, the events by ascending id. -/
structure BackfillTables (S : Type) where
  events : List EventRow
  /-- `payload->>'tenantId'` of the event with that id. -/
  payloadTenantId : ℕ → Option String
  archived : List ArchivedMarker
  snapshots : List (SnapshotRow S)

/-- Reference: `StreamTenantTarget`. -/
inductive StreamTenantTarget
  | system
  | payloadTenant
  deriving DecidableEq

/-- Reference: `StreamBackfillCandidate`. -/
structure StreamBackfillCandidate where
  aggregateId : String
  targetTenantId : String
  sourceTenantIds : List String

/-- Reference: `StreamBackfillFailure`. -/
structure StreamBackfillFailure where
  aggregateId : String
  error : String

/-- Reference: `StreamBackfillResult`. -/
structure StreamBackfillResult where
  aggregatesMigrated : ℕ
  eventsMigrated : ℕ
  failed : List StreamBackfillFailure

/-- What `onFirstCandidate` returns. -/
inductive FirstCandidateAnswer
  | proceed
  | skip

/-- Reference: `StreamBackfillOptions`. A hook that throws answers with the message. -/
structure StreamBackfillOptions where
  aggregateType : String
  target : StreamTenantTarget
  beforeMove : Option (StreamBackfillCandidate → Except String Unit)
  onMoveFailed : Option (StreamBackfillCandidate → Except String Unit)
  scanTenantIds : Option (List String)
  onFirstCandidate : Option (Except String FirstCandidateAnswer)

/-- Reference: `CandidateRow`. -/
structure BackfillCandidateRow where
  aggregateId : String
  targetTenantId : Option String
  sourceTenantIds : List String

/-- The order in which the database returns the groups of a query. -/
structure GroupOrder where
  arrange : List BackfillCandidateRow → List BackfillCandidateRow
  perm : ∀ rows, (arrange rows).Perm rows

/-- The first run and a second one look for the same streams, whatever their hooks do. -/
structure StreamBackfillOptions.SameSearch (options again : StreamBackfillOptions) : Prop where
  aggregateType : again.aggregateType = options.aggregateType
  target : again.target = options.target
  scanTenantIds : again.scanTenantIds = options.scanTenantIds

namespace BackfillTables

variable {S : Type} (tables : BackfillTables S) {row : BackfillCandidateRow}

/-! ## The candidates -/

/-- The events of an aggregate of the given type. -/
def eventsOf (aggregateType aggregateId : String) : List EventRow :=
  tables.events.filter fun e => e.aggregateType = aggregateType && e.aggregateId = aggregateId

/-- Reference: `targetSql`. -/
def targetTenantId (options : StreamBackfillOptions) (aggregateId : String) : Option String :=
  match options.target with
  | .system => some systemTenantId
  | .payloadTenant => (tables.eventsOf options.aggregateType aggregateId).head?.bind (tables.payloadTenantId ·.id)

/-- The tenants whose events are scanned. Reference: `scanSql`. -/
def scannedTenants (options : StreamBackfillOptions) : Except String (Option (List String)) :=
  match options.scanTenantIds with
  | none => .ok none
  | some ids =>
    some <$> (if options.target = .system then ids.filter (· ≠ systemTenantId) else ids).mapM asUuid

/-- The events that the query groups. -/
def scannedEvents (aggregateType : String) (scan : Option (List String)) : List EventRow :=
  tables.events.filter fun e => e.aggregateType = aggregateType && scan.all (e.tenantId ∈ ·)

/-- A group of the query, unless its HAVING drops it. -/
def candidateRow (options : StreamBackfillOptions) (scan : Option (List String)) (aggregateId : String) :
    Option BackfillCandidateRow :=
  let group := (tables.scannedEvents options.aggregateType scan).filter (·.aggregateId = aggregateId)
  let target := tables.targetTenantId options aggregateId
  if group.any fun e => some e.tenantId ≠ target then
    some ⟨aggregateId, target, (group.map (·.tenantId)).dedup.insertionSort (· ≤ ·)⟩
  else none

/-- The rows of the query, in no particular order. -/
def candidateRows (options : StreamBackfillOptions) (scan : Option (List String)) : List BackfillCandidateRow :=
  ((tables.scannedEvents options.aggregateType scan).map (·.aggregateId)).dedup.filterMap
    (tables.candidateRow options scan)

/-- Reference: `readCandidateRows`. -/
def readCandidateRows (order : GroupOrder) (options : StreamBackfillOptions) :
    Except String (List BackfillCandidateRow) := do
  let scan ← scannedTenants options
  return order.arrange (tables.candidateRows options scan)

/-! ## The move of an aggregate -/

/-- An UPDATE of the event with that id. -/
def updateEvent (events : List EventRow) (id : ℕ) (set : EventRow → EventRow) : Except String (List EventRow) :=
  let others := events.filter (·.id ≠ id)
  let updated := (events.filter (·.id = id)).map set
  if ∃ r ∈ updated, ∃ r' ∈ others, r.stream = r'.stream ∧ r.version = r'.version then
    .error "duplicate key value violates unique constraint \"events_aggregate_version_uq\""
  else if ∃ r ∈ updated, ∃ r' ∈ others, RowsConflict r r' then
    .error "duplicate key value violates unique constraint \"events_idempotency_uq\""
  else .ok (events.map fun r => if r.id = id then set r else r)

/-- One UPDATE for each of the ids, with its index. -/
def updateEvents (set : ℕ → EventRow → EventRow) (ids : List (ℕ × ℕ)) (events : List EventRow) :
    Except String (List EventRow) :=
  ids.foldlM (fun events p => updateEvent events p.1 (set p.2)) events

/-- The first pass puts an event in the target tenant, under an interim version. -/
def retenant (tenantId : String) (i : ℕ) (r : EventRow) : EventRow := { r with tenantId, version := -(i + 1) }

/-- The second pass gives it its version. -/
def renumber (i : ℕ) (r : EventRow) : EventRow := { r with version := i + 1 }

/-- The INSERT of a marker, which does nothing where its key is taken. -/
def insertMarker (rows : List ArchivedMarker) (m : ArchivedMarker) : List ArchivedMarker :=
  if ∃ m' ∈ rows, m'.stream = m.stream then rows else rows ++ [m]

/-- The markers of an aggregate go with the stream. -/
def moveMarkers (archived : List ArchivedMarker) (aggregateId tenantId : String) : List ArchivedMarker :=
  let source := archived.filter fun m => m.aggregateId = aggregateId && m.tenantId ≠ tenantId
  let inserted := (source.map fun m => { m with tenantId }).foldl insertMarker archived
  inserted.filter fun m => !(m.aggregateId = aggregateId && m.tenantId ≠ tenantId)

/-- The transaction of one aggregate: the tables after it, and how many events have moved. Reference:
`migrateAggregate`. -/
def migrateAggregate (aggregateType : String) (candidate : StreamBackfillCandidate) :
    Except String (BackfillTables S × ℕ) := do
  let ids := ((tables.eventsOf aggregateType candidate.aggregateId).map (·.id)).zipIdx
  let tenantId ← asUuid candidate.targetTenantId
  let events ← updateEvents (retenant tenantId) ids tables.events
  let events ← updateEvents renumber ids events
  return ({ tables with
    events
    snapshots := tables.snapshots.filter (·.aggregateId ≠ candidate.aggregateId)
    archived := moveMarkers tables.archived candidate.aggregateId tenantId }, ids.length)

/-! ## The run -/

/-- Reference: `withRestoreOutcome`, where `beforeMove` has been called. -/
def withRestoreOutcome (options : StreamBackfillOptions) (candidate : StreamBackfillCandidate) (moveError : String) :
    String :=
  match options.onMoveFailed with
  | none => moveError
  | some onMoveFailed =>
    match onMoveFailed candidate with
    | .ok () => moveError
    | .error detail => moveError ++ "; restoring the pre-move derived state failed: " ++ detail

/-- What the `try` of the loop does with a candidate: the tables after the move, or the message that is reported. -/
def moveCandidate (options : StreamBackfillOptions) (row : BackfillCandidateRow) :
    Except String (BackfillTables S × ℕ) :=
  match row.targetTenantId with
  | none | some "" => .error "earliest event of the aggregate carries no payload.tenantId"
  | some targetTenantId =>
    let candidate : StreamBackfillCandidate := ⟨row.aggregateId, targetTenantId, row.sourceTenantIds⟩
    let moved : Except String (BackfillTables S × ℕ) := do
      (options.beforeMove.getD fun _ => .ok ()) candidate
      tables.migrateAggregate options.aggregateType candidate
    moved.mapError (withRestoreOutcome options candidate)

/-- One pass of the loop. -/
def moveNext (options : StreamBackfillOptions) (state : BackfillTables S × StreamBackfillResult)
    (row : BackfillCandidateRow) : BackfillTables S × StreamBackfillResult :=
  match state.1.moveCandidate options row with
  | .ok (tables, events) =>
    (tables, { state.2 with
      aggregatesMigrated := state.2.aggregatesMigrated + 1, eventsMigrated := state.2.eventsMigrated + events })
  | .error error => (state.1, { state.2 with failed := state.2.failed ++ [⟨row.aggregateId, error⟩] })

/-- Reference: the loop of `backfillAggregateStreamTenants`. -/
def moveAll (options : StreamBackfillOptions) (rows : List BackfillCandidateRow) :
    BackfillTables S × StreamBackfillResult :=
  rows.foldl (moveNext options) (tables, ⟨0, 0, []⟩)

/-- Reference: `onFirstCandidate`, called once where there are candidates. -/
def firstCandidate (options : StreamBackfillOptions) (rows : List BackfillCandidateRow) :
    Except String FirstCandidateAnswer :=
  match rows, options.onFirstCandidate with
  | _ :: _, some answer => answer
  | _, _ => .ok .proceed

/-- Reference: `backfillAggregateStreamTenants`. -/
def backfillAggregateStreamTenants (order : GroupOrder) (options : StreamBackfillOptions) :
    Except String (BackfillTables S × StreamBackfillResult) := do
  let rows ← tables.readCandidateRows order options
  match ← firstCandidate options rows with
  | .skip => return (tables, ⟨0, 0, []⟩)
  | .proceed => return tables.moveAll options rows

/-! ## What a run leaves -/

/-- What every event table keeps: the ids ascend, no two rows share an entry of a unique index, and a stream has one
marker. -/
structure WF : Prop where
  sorted : tables.events.Pairwise fun a b => a.id < b.id
  unique : tables.events.Pairwise fun a b => ¬ RowsConflict a b
  markers : (tables.archived.map (·.stream)).Nodup

/-- All that the tables hold of an aggregate id, for any type. -/
def ofAggregate (aggregateId : String) : List EventRow × List ArchivedMarker × List (SnapshotRow S) :=
  (tables.events.filter (·.aggregateId = aggregateId), tables.archived.filter (·.aggregateId = aggregateId),
    tables.snapshots.filter (·.aggregateId = aggregateId))

/-- The run has moved the aggregate: the query returned it, the run was not skipped, and the move did not fail. -/
def Migrated (order : GroupOrder) (options : StreamBackfillOptions) (result : StreamBackfillResult)
    (aggregateId : String) : Prop :=
  ∃ rows, tables.readCandidateRows order options = .ok rows ∧ firstCandidate options rows = .ok .proceed ∧
    aggregateId ∈ rows.map (·.aggregateId) ∧ aggregateId ∉ result.failed.map (·.aggregateId)

/-- The events of the aggregate are those it had, on one tenant, with the versions from one on. -/
def MergedInto (tables' : BackfillTables S) (aggregateType aggregateId tenantId : String) : Prop :=
  tables'.eventsOf aggregateType aggregateId =
    (tables.eventsOf aggregateType aggregateId).mapIdx fun i e => { e with tenantId, version := i + 1 }

/-- The run merges streams, and there is nothing left to do for a second one. -/
def BackfillIsMerge (order again : GroupOrder) (options : StreamBackfillOptions) : Prop :=
  ∀ tables' result, tables.backfillAggregateStreamTenants order options = .ok (tables', result) →
    (∀ aggregateId, tables.Migrated order options result aggregateId → ∃ target tenantId,
      tables.targetTenantId options aggregateId = some target ∧ asUuid target = .ok tenantId ∧
      tables.MergedInto tables' options.aggregateType aggregateId tenantId) ∧
    (∀ aggregateId ∈ result.failed.map (·.aggregateId),
      tables'.ofAggregate aggregateId = tables.ofAggregate aggregateId) ∧
    tables'.events.filter (·.aggregateType ≠ options.aggregateType) =
      tables.events.filter (·.aggregateType ≠ options.aggregateType) ∧
    tables'.archived.filter (·.aggregateType ≠ options.aggregateType) =
      tables.archived.filter (·.aggregateType ≠ options.aggregateType) ∧
    ∀ tables'' result', tables'.backfillAggregateStreamTenants again options = .ok (tables'', result') →
      ∀ aggregateId, ¬ tables'.Migrated again options result' aggregateId

/-- What a run does and a second one finds. -/
structure StreamsMerged (order : GroupOrder) (options : StreamBackfillOptions) (tables' : BackfillTables S)
    (result : StreamBackfillResult) : Prop where
  wf : tables'.WF
  migrated : ∀ aggregateId, tables.Migrated order options result aggregateId → ∃ target tenantId,
    tables.targetTenantId options aggregateId = some target ∧ asUuid target = .ok tenantId ∧
    tables.MergedInto tables' options.aggregateType aggregateId tenantId ∧
    ∀ m ∈ tables.archived, m.stream = (tenantId, aggregateId) → m ∈ tables'.archived
  unmoved : ∀ aggregateId, ¬ tables.Migrated order options result aggregateId →
    tables'.ofAggregate aggregateId = tables.ofAggregate aggregateId
  otherTypes : tables'.events.filter (·.aggregateType ≠ options.aggregateType) =
    tables.events.filter (·.aggregateType ≠ options.aggregateType)
  again : ∀ (again : GroupOrder) (options' : StreamBackfillOptions), options.SameSearch options' →
    ∀ tables'' result', tables'.backfillAggregateStreamTenants again options' = .ok (tables'', result') →
      ∀ aggregateId target, tables.targetTenantId options aggregateId = some target → asUuid target = .ok target →
        tables'.Migrated again options' result' aggregateId →
        aggregateId ∈ result.failed.map (·.aggregateId) ∨
          ∃ rows, tables.readCandidateRows order options = .ok rows ∧ firstCandidate options rows = .ok .skip

/-! ## The move of an aggregate, step by step -/

section
variable {tables} {events events' : List EventRow} {id : ℕ} {set : ℕ → EventRow → EventRow}

theorem rowsConflict_symm {r r' : EventRow} (h : RowsConflict r r') : RowsConflict r' r := by
  rcases h with ⟨hs, hv⟩ | ⟨ht, hsome, hk⟩
  · exact .inl ⟨hs.symm, hv.symm⟩
  · exact .inr ⟨ht.symm, hk ▸ hsome, hk.symm⟩

/-- An UPDATE that goes through changes the one event, and no unique index is violated after it. -/
theorem updateEvent_ok {set : EventRow → EventRow} (h : updateEvent events id set = .ok events') :
    events' = events.map (fun r => if r.id = id then set r else r) ∧
      ∀ r ∈ events, r.id = id → ∀ r' ∈ events, r'.id ≠ id → ¬ RowsConflict (set r) r' := by
  unfold updateEvent at h
  dsimp only at h
  split at h
  · cases h
  · split at h
    · cases h
    · next hfree =>
      refine ⟨(Except.ok.inj h).symm, fun r hr hid r' hr' hne hc => hfree ⟨set r, ?_, r', ?_, hc⟩⟩
      · exact List.mem_map_of_mem (List.mem_filter.2 ⟨hr, decide_eq_true hid⟩)
      · exact List.mem_filter.2 ⟨hr', decide_eq_true hne⟩

/-- An update that keeps the ids keeps the unique indexes. -/
theorem unique_updateEvent {set : EventRow → EventRow} (hset : ∀ r, (set r).id = r.id)
    (hsorted : events.Pairwise fun a b => a.id < b.id) (hunique : events.Pairwise fun a b => ¬ RowsConflict a b)
    (h : updateEvent events id set = .ok events') :
    (events'.Pairwise fun a b => a.id < b.id) ∧ events'.Pairwise fun a b => ¬ RowsConflict a b := by
  obtain ⟨rfl, hfree⟩ := updateEvent_ok h
  have hid : ∀ r : EventRow, (if r.id = id then set r else r).id = r.id := fun r => by
    split
    · exact hset r
    · rfl
  refine ⟨List.pairwise_map.2 (hsorted.imp fun hlt => by rwa [hid, hid]), List.pairwise_map.2 ?_⟩
  refine (hsorted.and hunique).imp_of_mem fun {a b} ha hb ⟨hlt, hc⟩ => ?_
  by_cases hai : a.id = id
  · have hbi : b.id ≠ id := fun hb => absurd hlt (by omega)
    rw [if_pos hai, if_neg hbi]
    exact hfree a ha hai b hb hbi
  · rw [if_neg hai]
    by_cases hbi : b.id = id
    · rw [if_pos hbi]
      exact fun hc => hfree b hb hbi a ha hai (rowsConflict_symm hc)
    · rwa [if_neg hbi]

/-- What the updates of one pass make of an event. -/
def updatedRow (set : ℕ → EventRow → EventRow) (ids : List (ℕ × ℕ)) (r : EventRow) : EventRow :=
  ids.foldl (fun r p => if r.id = p.1 then set p.2 r else r) r

theorem updatedRow_key {α : Type} {key : EventRow → α} (hset : ∀ i r, key (set i r) = key r) (ids : List (ℕ × ℕ))
    (r : EventRow) : key (updatedRow set ids r) = key r := by
  induction ids generalizing r with
  | nil => rfl
  | cons p ids ih =>
    rw [updatedRow, List.foldl_cons]
    refine (ih _).trans ?_
    split
    · exact hset p.2 r
    · rfl

theorem updatedRow_of_notMem {ids : List (ℕ × ℕ)} {r : EventRow} (h : r.id ∉ ids.map (·.1)) :
    updatedRow set ids r = r := by
  induction ids with
  | nil => rfl
  | cons p ids ih =>
    obtain ⟨hne, hrest⟩ := not_or.1 (List.mem_cons.not.1 h)
    rw [updatedRow, List.foldl_cons, if_neg hne]
    exact ih hrest

/-- A pass updates every event on its own. -/
theorem updateEvents_ok (set : ℕ → EventRow → EventRow) {ids : List (ℕ × ℕ)} (hset : ∀ i r, (set i r).id = r.id)
    (hsorted : events.Pairwise fun a b => a.id < b.id) (hunique : events.Pairwise fun a b => ¬ RowsConflict a b)
    (h : updateEvents set ids events = .ok events') :
    events' = events.map (updatedRow set ids) ∧ (events'.Pairwise fun a b => a.id < b.id) ∧
      events'.Pairwise fun a b => ¬ RowsConflict a b := by
  induction ids generalizing events with
  | nil =>
    cases h
    exact ⟨(List.map_id' _).symm, hsorted, hunique⟩
  | cons p ids ih =>
    unfold updateEvents at h
    rw [List.foldlM_cons] at h
    cases hone : updateEvent events p.1 (set p.2) with
    | error e =>
      rw [hone] at h
      cases h
    | ok events₁ =>
      rw [hone] at h
      obtain ⟨hs, hu⟩ := unique_updateEvent (hset p.2) hsorted hunique hone
      obtain ⟨rfl, hrest⟩ := ih hs hu h
      refine ⟨?_, hrest⟩
      rw [(updateEvent_ok hone).1, List.map_map]
      rfl

/-- The events that a pass goes through, in their order, have been set by their index. -/
theorem map_updatedRow (set : ℕ → EventRow → EventRow) (es : List EventRow) (hset : ∀ i r, (set i r).id = r.id)
    (hnodup : (es.map (·.id)).Nodup) (k : ℕ) :
    es.map (updatedRow set ((es.map (·.id)).zipIdx k)) = es.mapIdx fun i r => set (k + i) r := by
  induction es generalizing k with
  | nil => rfl
  | cons e es ih =>
    obtain ⟨hfresh, hnodup⟩ := List.nodup_cons.1 hnodup
    have hhead : updatedRow set (((e :: es).map (·.id)).zipIdx k) e = set k e := by
      rw [List.map_cons, List.zipIdx_cons, updatedRow, List.foldl_cons, if_pos rfl]
      refine updatedRow_of_notMem ?_
      rw [hset, show (List.map (·.1) ((es.map (·.id)).zipIdx (k + 1))) = es.map (·.id) from List.zipIdx_map_fst _ _]
      exact hfresh
    have htail : es.map (updatedRow set (((e :: es).map (·.id)).zipIdx k)) =
        es.map (updatedRow set ((es.map (·.id)).zipIdx (k + 1))) := by
      refine List.map_congr_left fun r hr => ?_
      have hne : r.id ≠ e.id := fun he => hfresh (List.mem_map.2 ⟨r, hr, he⟩)
      rw [List.map_cons, List.zipIdx_cons, updatedRow, List.foldl_cons, if_neg hne]
      rfl
    rw [List.map_cons, hhead, htail, ih hnodup, List.mapIdx_cons]
    simp only [Nat.add_zero, Nat.add_assoc, Nat.add_comm 1]

end

/-- What the move of an aggregate does to the tables. -/
structure Moved (tables' : BackfillTables S) (aggregateType aggregateId tenantId : String) : Prop where
  wf : tables'.WF
  payload : tables'.payloadTenantId = tables.payloadTenantId
  merged : tables.MergedInto tables' aggregateType aggregateId tenantId
  otherTypes : tables'.events.filter (·.aggregateType ≠ aggregateType) =
    tables.events.filter (·.aggregateType ≠ aggregateType)
  otherIds : ∀ other, other ≠ aggregateId → tables'.ofAggregate other = tables.ofAggregate other
  markers : ∀ m ∈ tables.archived, m.stream = (tenantId, aggregateId) → m ∈ tables'.archived

section
variable {tables} {tables' : BackfillTables S} {aggregateType aggregateId tenantId : String}
  {archived : List ArchivedMarker}

/-- Inserted markers have keys that were free, and all markers stay. -/
theorem insertMarkers_spec (inserted : List ArchivedMarker) (hnodup : (archived.map (·.stream)).Nodup) :
    ((inserted.foldl insertMarker archived).map (·.stream)).Nodup ∧
      ∃ added, inserted.foldl insertMarker archived = archived ++ added ∧ added.Sublist inserted := by
  induction inserted generalizing archived with
  | nil => exact ⟨hnodup, [], (List.append_nil _).symm, .refl _⟩
  | cons m inserted ih =>
    rw [List.foldl_cons, insertMarker]
    split
    · obtain ⟨hkeys, added, he, hsub⟩ := ih hnodup
      exact ⟨hkeys, added, he, hsub.cons _⟩
    · next hfree =>
      have hnodup' : ((archived ++ [m]).map (·.stream)).Nodup := by
        rw [List.map_append, List.map_singleton]
        refine hnodup.append (List.nodup_singleton _) fun key hkey hm => hfree ?_
        obtain ⟨m', hm', he⟩ := List.mem_map.1 hkey
        exact ⟨m', hm', he.trans (List.mem_singleton.1 hm)⟩
      obtain ⟨hkeys, added, he, hsub⟩ := ih hnodup'
      refine ⟨hkeys, m :: added, ?_, hsub.cons_cons m⟩
      rw [he, List.append_assoc, List.singleton_append]

/-- The markers move within their aggregate id, and those in the target tenant stay. -/
theorem moveMarkers_spec (aggregateId tenantId : String) (hnodup : (archived.map (·.stream)).Nodup) :
    ((moveMarkers archived aggregateId tenantId).map (·.stream)).Nodup ∧
      (∀ other, other ≠ aggregateId → (moveMarkers archived aggregateId tenantId).filter (·.aggregateId = other) =
        archived.filter (·.aggregateId = other)) ∧
      ∀ m ∈ archived, m.stream = (tenantId, aggregateId) → m ∈ moveMarkers archived aggregateId tenantId := by
  unfold moveMarkers
  dsimp only
  obtain ⟨hkeys, added, he, hsub⟩ := insertMarkers_spec ((archived.filter fun m =>
    m.aggregateId = aggregateId && m.tenantId ≠ tenantId).map fun m => { m with tenantId }) hnodup
  rw [he] at hkeys ⊢
  refine ⟨hkeys.sublist (List.filter_sublist.map _), fun other hne => ?_, fun m hm hkey => ?_⟩
  · have hadded : added.filter (·.aggregateId = other) = [] := by
      refine List.filter_eq_nil_iff.2 fun m hm => ?_
      obtain ⟨m', hm', rfl⟩ := List.mem_map.1 (hsub.subset hm)
      have : m'.aggregateId = aggregateId := by simpa using (Bool.and_eq_true_iff.1 (List.mem_filter.1 hm').2).1
      simpa [this] using hne.symm
    rw [List.filter_filter, List.filter_append]
    have hkeep : ∀ m : ArchivedMarker,
        (decide (m.aggregateId = other) && !(decide (m.aggregateId = aggregateId) && decide (m.tenantId ≠ tenantId))) =
          decide (m.aggregateId = other) := fun m => by
      by_cases h : m.aggregateId = other <;> simp [h, hne]
    simp only [hkeep, hadded, List.append_nil]
  · refine List.mem_filter.2 ⟨List.mem_append_left _ hm, ?_⟩
    obtain ⟨ht, -⟩ := Prod.mk.inj hkey
    simp [ht]

/-- An update of the events that keeps what a predicate asks for, and changes no event that meets it, leaves the events
that meet it. -/
theorem filter_map_of_kept {events : List EventRow} {g : EventRow → EventRow} {q : EventRow → Bool}
    (hkey : ∀ r, q (g r) = q r) (hkept : ∀ r ∈ events, q r → g r = r) : (events.map g).filter q = events.filter q := by
  rw [List.filter_map, show q ∘ g = q from funext hkey]
  refine (List.map_congr_left fun r hr => ?_).trans (List.map_id _)
  exact hkept r (List.mem_filter.1 hr).1 (List.mem_filter.1 hr).2

theorem exists_of_bind_eq_ok {α β : Type} {x : Except String α} {f : α → Except String β} {b : β}
    (h : x >>= f = .ok b) : ∃ a, x = .ok a ∧ f a = .ok b := by
  cases x with
  | error e => cases h
  | ok a => exact ⟨a, rfl, h⟩

/-- What the two passes make of an event. -/
def movedRow (tenantId : String) (ids : List (ℕ × ℕ)) (r : EventRow) : EventRow :=
  updatedRow renumber ids (updatedRow (retenant tenantId) ids r)

/-- The passes keep what neither of them sets. -/
theorem movedRow_key {α : Type} (tenantId : String) (key : EventRow → α)
    (hretenant : ∀ i r, key (retenant tenantId i r) = key r) (hrenumber : ∀ i r, key (renumber i r) = key r)
    (ids : List (ℕ × ℕ)) (r : EventRow) :
    key (movedRow tenantId ids r) = key r :=
  (updatedRow_key hrenumber ids _).trans (updatedRow_key hretenant ids r)

theorem movedRow_of_notMem {ids : List (ℕ × ℕ)} {r : EventRow} (h : r.id ∉ ids.map (·.1)) :
    movedRow tenantId ids r = r := by
  rw [movedRow, updatedRow_of_notMem (r := r) h, updatedRow_of_notMem h]

theorem map_movedRow {es : List EventRow} (hnodup : (es.map (·.id)).Nodup) :
    es.map (movedRow tenantId (es.map (·.id)).zipIdx) = es.mapIdx fun i e => { e with tenantId, version := i + 1 } := by
  have hfirst := map_updatedRow (retenant tenantId) es (fun _ _ => rfl) hnodup 0
  have hids : (es.mapIdx fun i r => retenant tenantId (0 + i) r).map (·.id) = es.map (·.id) := by
    exact List.ext_getElem (by simp) fun i _ _ => by simp [retenant]
  have hsecond := map_updatedRow renumber (es.mapIdx fun i r => retenant tenantId (0 + i) r)
    (fun _ _ => rfl) (hids.symm ▸ hnodup) 0
  calc es.map (movedRow tenantId (es.map (·.id)).zipIdx)
      = (es.map (updatedRow (retenant tenantId) (es.map (·.id)).zipIdx)).map
          (updatedRow renumber (es.map (·.id)).zipIdx) := by rw [List.map_map]; rfl
    _ = (es.mapIdx fun i r => retenant tenantId (0 + i) r).mapIdx fun i r => renumber (0 + i) r := by
        rw [hfirst, ← hsecond, hids]
    _ = es.mapIdx fun i e => { e with tenantId, version := i + 1 } := by
        rw [List.mapIdx_mapIdx]
        simp only [Function.comp_def, Nat.zero_add]
        rfl

/-- The move puts the events of the aggregate on the target tenant, and leaves what is not of the aggregate. -/
theorem migrateAggregate_ok (hwf : tables.WF) {candidate : StreamBackfillCandidate} {n : ℕ}
    (h : tables.migrateAggregate aggregateType candidate = .ok (tables', n)) :
    ∃ tenantId, asUuid candidate.targetTenantId = .ok tenantId ∧
      tables.Moved tables' aggregateType candidate.aggregateId tenantId := by
  unfold migrateAggregate at h
  obtain ⟨tenantId, htenant, h⟩ := exists_of_bind_eq_ok h
  obtain ⟨events₁, hfirst, h⟩ := exists_of_bind_eq_ok h
  obtain ⟨events₂, hsecond, h⟩ := exists_of_bind_eq_ok h
  obtain ⟨rfl, hsorted₁, hunique₁⟩ := updateEvents_ok (retenant tenantId) (fun _ _ => rfl) hwf.sorted hwf.unique hfirst
  obtain ⟨rfl, hsorted, hunique⟩ := updateEvents_ok renumber (fun _ _ => rfl) hsorted₁ hunique₁ hsecond
  obtain ⟨hmarkers, hothers, hkept⟩ := moveMarkers_spec candidate.aggregateId tenantId hwf.markers
  obtain ⟨rfl, -⟩ := Prod.mk.inj (Except.ok.inj h)
  have hids : (tables.events.map (·.id)).Nodup := List.pairwise_map.2 (hwf.sorted.imp Nat.ne_of_lt)
  -- an event that is not of the stream keeps its row
  have hkeep : ∀ r ∈ tables.events, ¬ (r.aggregateType = aggregateType ∧ r.aggregateId = candidate.aggregateId) →
      movedRow tenantId ((tables.eventsOf aggregateType candidate.aggregateId).map (·.id)).zipIdx r = r := by
    intro r hr hother
    refine movedRow_of_notMem fun hmem => hother ?_
    rw [show List.map (·.1) (List.zipIdx _) = _ from List.zipIdx_map_fst 0 _] at hmem
    obtain ⟨r', hr', he⟩ := List.mem_map.1 hmem
    obtain ⟨hr', hown⟩ := List.mem_filter.1 hr'
    obtain rfl := List.inj_on_of_nodup_map hids hr' hr he
    simpa using hown
  have htype := movedRow_key tenantId EventRow.aggregateType (fun _ _ => rfl) (fun _ _ => rfl)
  have hid := movedRow_key tenantId EventRow.aggregateId (fun _ _ => rfl) (fun _ _ => rfl)
  refine ⟨tenantId, htenant, ⟨hsorted, hunique, hmarkers⟩, rfl, ?_, ?_, fun other hne => ?_, hkept⟩
  · have hnodup : ((tables.eventsOf aggregateType candidate.aggregateId).map (·.id)).Nodup :=
      hids.sublist (List.filter_sublist.map _)
    refine Eq.trans ?_ (map_movedRow hnodup)
    unfold eventsOf
    rw [List.map_map, List.filter_map]
    refine congrArg (List.map _) (List.filter_congr fun r _ => ?_)
    rw [Function.comp, Function.comp, ← movedRow, htype, hid]
  · dsimp only
    rw [List.map_map]
    exact filter_map_of_kept (fun r => by rw [Function.comp, ← movedRow, htype]) fun r hr hq =>
      hkeep r hr fun hown => of_decide_eq_true hq hown.1
  · unfold ofAggregate
    dsimp only
    rw [hothers other hne, List.map_map, List.filter_filter]
    refine congrArg₂ Prod.mk ?_ (congrArg (Prod.mk _) (List.filter_congr fun row _ => ?_))
    · exact filter_map_of_kept (fun r => by rw [Function.comp, ← movedRow, hid]) fun r hr hq =>
        hkeep r hr fun hown => hne ((of_decide_eq_true hq).symm.trans hown.2)
    · by_cases h : row.aggregateId = other <;> simp [h, hne]

end

/-! ## The loop over the candidates -/

section
variable {tables} {tables' : BackfillTables S} {options : StreamBackfillOptions} {rows : List BackfillCandidateRow}
  {failed : List String} {aggregateType aggregateId tenantId : String}

theorem moveCandidate_ok (hwf : tables.WF) {n : ℕ} (h : tables.moveCandidate options row = .ok (tables', n)) :
    ∃ target tenantId, row.targetTenantId = some target ∧ asUuid target = .ok tenantId ∧
      tables.Moved tables' options.aggregateType row.aggregateId tenantId := by
  unfold moveCandidate at h
  split at h
  · cases h
  · cases h
  · next target _ htarget =>
    dsimp only at h
    cases hmoved : (do
      (options.beforeMove.getD fun _ => .ok ()) ⟨row.aggregateId, target, row.sourceTenantIds⟩
      tables.migrateAggregate options.aggregateType ⟨row.aggregateId, target, row.sourceTenantIds⟩ :
        Except String (BackfillTables S × ℕ)) with
    | error e =>
      rw [hmoved] at h
      cases h
    | ok moved =>
      rw [hmoved] at h
      obtain ⟨-, -, hmigrate⟩ := exists_of_bind_eq_ok hmoved
      obtain rfl := Except.ok.inj h
      obtain ⟨tenantId, hcast, hm⟩ := migrateAggregate_ok hwf hmigrate
      exact ⟨target, tenantId, htarget, hcast, hm⟩

/-- What the loop has done to the tables once it is through the rows, of which some have failed. -/
structure MovedAll (tables' : BackfillTables S) (aggregateType : String) (rows : List BackfillCandidateRow)
    (failed : List String) : Prop where
  wf : tables'.WF
  payload : tables'.payloadTenantId = tables.payloadTenantId
  otherTypes : tables'.events.filter (·.aggregateType ≠ aggregateType) =
    tables.events.filter (·.aggregateType ≠ aggregateType)
  reported : failed ⊆ rows.map (·.aggregateId)
  unmoved : ∀ aggregateId, aggregateId ∉ rows.map (·.aggregateId) ∨ aggregateId ∈ failed →
    tables'.ofAggregate aggregateId = tables.ofAggregate aggregateId
  moved : ∀ row ∈ rows, row.aggregateId ∉ failed → ∃ target tenantId, row.targetTenantId = some target ∧
    asUuid target = .ok tenantId ∧ tables.MergedInto tables' aggregateType row.aggregateId tenantId ∧
    ∀ m ∈ tables.archived, m.stream = (tenantId, row.aggregateId) → m ∈ tables'.archived

theorem eventsOf_of_ofAggregate (aggregateType : String)
    (h : tables'.ofAggregate aggregateId = tables.ofAggregate aggregateId) :
    tables'.eventsOf aggregateType aggregateId = tables.eventsOf aggregateType aggregateId := by
  have hevents := congrArg (fun t => t.1.filter (·.aggregateType = aggregateType)) h
  simpa only [ofAggregate, eventsOf, List.filter_filter] using hevents

theorem mem_archived_of_ofAggregate {m : ArchivedMarker}
    (h : tables'.ofAggregate m.aggregateId = tables.ofAggregate m.aggregateId) :
    m ∈ tables'.archived ↔ m ∈ tables.archived := by
  have hmarkers : tables'.archived.filter (·.aggregateId = m.aggregateId) =
      tables.archived.filter (·.aggregateId = m.aggregateId) := congrArg (·.2.1) h
  have hmem : ∀ archived : List ArchivedMarker,
      m ∈ archived.filter (·.aggregateId = m.aggregateId) ↔ m ∈ archived := fun archived => by simp
  rw [← hmem, hmarkers, hmem]

/-- The first row and then the others, where the first has failed. -/
theorem MovedAll.cons_failed (hnotin : row.aggregateId ∉ rows.map (·.aggregateId))
    (h : tables.MovedAll tables' aggregateType rows failed) :
    tables.MovedAll tables' aggregateType (row :: rows) (row.aggregateId :: failed) where
  wf := h.wf
  payload := h.payload
  otherTypes := h.otherTypes
  reported := List.cons_subset_cons _ h.reported
  unmoved aggregateId hid := by
    by_cases he : aggregateId = row.aggregateId
    · exact h.unmoved aggregateId (.inl (he ▸ hnotin))
    · refine h.unmoved aggregateId (hid.imp (fun hnot hmem => hnot (List.mem_cons_of_mem _ hmem)) fun hmem => ?_)
      exact (List.mem_cons.1 hmem).resolve_left he
  moved r hr hnot := by
    obtain ⟨hne, hnot⟩ := not_or.1 (List.mem_cons.not.1 hnot)
    obtain rfl | hr := List.mem_cons.1 hr
    · exact absurd rfl hne
    · exact h.moved r hr hnot

/-- The first row and then the others, where the first has moved. -/
theorem MovedAll.cons_moved {tables₁ : BackfillTables S} {target : String}
    (hfirst : tables.Moved tables₁ aggregateType row.aggregateId tenantId)
    (htarget : row.targetTenantId = some target) (hcast : asUuid target = .ok tenantId)
    (hnotin : row.aggregateId ∉ rows.map (·.aggregateId)) (h : tables₁.MovedAll tables' aggregateType rows failed) :
    tables.MovedAll tables' aggregateType (row :: rows) failed where
  wf := h.wf
  payload := h.payload.trans hfirst.payload
  otherTypes := h.otherTypes.trans hfirst.otherTypes
  reported := List.Subset.trans h.reported (List.subset_cons_self _ _)
  unmoved aggregateId hid := by
    have hne : aggregateId ≠ row.aggregateId := by
      rintro rfl
      rcases hid with hnot | hmem
      · exact hnot List.mem_cons_self
      · exact hnotin (h.reported hmem)
    refine (h.unmoved aggregateId (hid.imp_left fun hnot hmem => hnot (List.mem_cons_of_mem _ hmem))).trans ?_
    exact hfirst.otherIds aggregateId hne
  moved r hr hnot := by
    obtain rfl | hr := List.mem_cons.1 hr
    · have hrest := h.unmoved r.aggregateId (.inl hnotin)
      have hmerged := (eventsOf_of_ofAggregate aggregateType hrest).trans hfirst.merged
      refine ⟨target, tenantId, htarget, hcast, hmerged, fun m hm hkey => ?_⟩
      have he : m.aggregateId = r.aggregateId := (Prod.mk.inj hkey).2
      exact (mem_archived_of_ofAggregate (he ▸ hrest)).2 (hfirst.markers m hm hkey)
    · have hne : r.aggregateId ≠ row.aggregateId := fun he => hnotin (he ▸ List.mem_map_of_mem hr)
      have hbefore := hfirst.otherIds r.aggregateId hne
      obtain ⟨target', tenantId', htarget', hcast', hmerged, hmarkers⟩ := h.moved r hr hnot
      refine ⟨target', tenantId', htarget', hcast', ?_, fun m hm hkey => hmarkers m ?_ hkey⟩
      · unfold MergedInto at hmerged ⊢
        rw [hmerged, eventsOf_of_ofAggregate _ hbefore]
      · have he : m.aggregateId = r.aggregateId := (Prod.mk.inj hkey).2
        exact (mem_archived_of_ofAggregate (he ▸ hbefore)).2 hm

/-- The loop moves each aggregate or reports it. -/
theorem moveAll_spec (options : StreamBackfillOptions) (hwf : tables.WF) (hnodup : (rows.map (·.aggregateId)).Nodup)
    (result : StreamBackfillResult) :
    ∃ failed, (rows.foldl (moveNext options) (tables, result)).2.failed = result.failed ++ failed ∧
      tables.MovedAll (rows.foldl (moveNext options) (tables, result)).1 options.aggregateType rows
        (failed.map (·.aggregateId)) := by
  induction rows generalizing tables result with
  | nil =>
    exact ⟨[], (List.append_nil _).symm, hwf, rfl, rfl, List.Subset.refl _, fun _ _ => rfl, fun _ h => nomatch h⟩
  | cons row rows ih =>
    obtain ⟨hnotin, hnodup⟩ := List.nodup_cons.1 hnodup
    rw [List.foldl_cons, moveNext]
    cases hmove : tables.moveCandidate options row with
    | ok moved =>
      obtain ⟨target, tenantId, htarget, hcast, hfirst⟩ := moveCandidate_ok hwf hmove
      obtain ⟨failed, hfailed, hrest⟩ := ih hfirst.wf hnodup { result with
        aggregatesMigrated := result.aggregatesMigrated + 1, eventsMigrated := result.eventsMigrated + moved.2 }
      exact ⟨failed, hfailed, hrest.cons_moved hfirst htarget hcast hnotin⟩
    | error error =>
      obtain ⟨failed, hfailed, hrest⟩ := ih hwf hnodup { result with
        failed := result.failed ++ [⟨row.aggregateId, error⟩] }
      refine ⟨⟨row.aggregateId, error⟩ :: failed, ?_, hrest.cons_failed hnotin⟩
      rw [hfailed, List.append_assoc, List.singleton_append]

end

/-! ## The candidates of a run -/

section
variable {tables} {tables' : BackfillTables S} {order : GroupOrder} {options options' : StreamBackfillOptions}
  {rows : List BackfillCandidateRow} {scan : Option (List String)} {result : StreamBackfillResult}
  {aggregateId : String}

theorem readCandidateRows_ok (h : tables.readCandidateRows order options = .ok rows) :
    ∃ scan, scannedTenants options = .ok scan ∧ rows = order.arrange (tables.candidateRows options scan) := by
  obtain ⟨scan, hscan, h⟩ := exists_of_bind_eq_ok h
  exact ⟨scan, hscan, (Except.ok.inj h).symm⟩

/-- A row of the query is a group with an event outside the target tenant. -/
theorem candidateRow_eq_some (h : tables.candidateRow options scan aggregateId = some row) :
    row.aggregateId = aggregateId ∧ row.targetTenantId = tables.targetTenantId options aggregateId ∧
      ∃ e ∈ tables.eventsOf options.aggregateType aggregateId, scan.all (e.tenantId ∈ ·) ∧
        some e.tenantId ≠ tables.targetTenantId options aggregateId := by
  unfold candidateRow at h
  dsimp only at h
  split at h
  · next hany =>
    obtain rfl := Option.some.inj h
    obtain ⟨e, he, hne⟩ := List.any_eq_true.1 hany
    obtain ⟨he, hid⟩ := List.mem_filter.1 he
    obtain ⟨he, hscanned⟩ := List.mem_filter.1 he
    obtain ⟨htype, hscan⟩ := Bool.and_eq_true_iff.1 hscanned
    exact ⟨rfl, rfl, e, List.mem_filter.2 ⟨he, Bool.and_eq_true_iff.2 ⟨htype, hid⟩⟩, hscan, of_decide_eq_true hne⟩
  · cases h

theorem mem_candidateRows (h : row ∈ tables.candidateRows options scan) :
    tables.candidateRow options scan row.aggregateId = some row := by
  obtain ⟨id, -, hrow⟩ := List.mem_filterMap.1 h
  rwa [(candidateRow_eq_some hrow).1]

/-- An aggregate with a scanned event outside its target tenant is a candidate, and no other. -/
theorem mem_candidateIds : aggregateId ∈ (tables.candidateRows options scan).map (·.aggregateId) ↔
    ∃ e ∈ tables.eventsOf options.aggregateType aggregateId, scan.all (e.tenantId ∈ ·) ∧
      some e.tenantId ≠ tables.targetTenantId options aggregateId := by
  constructor
  · intro h
    obtain ⟨row, hrow, rfl⟩ := List.mem_map.1 h
    exact (candidateRow_eq_some (mem_candidateRows hrow)).2.2
  · rintro ⟨e, he, hscan, hne⟩
    obtain ⟨he, hown⟩ := List.mem_filter.1 he
    obtain ⟨htype, hid⟩ := Bool.and_eq_true_iff.1 hown
    have hscanned : e ∈ tables.scannedEvents options.aggregateType scan :=
      List.mem_filter.2 ⟨he, Bool.and_eq_true_iff.2 ⟨htype, hscan⟩⟩
    have hany : ((tables.scannedEvents options.aggregateType scan).filter (·.aggregateId = aggregateId)).any
        (fun e => some e.tenantId ≠ tables.targetTenantId options aggregateId) :=
      List.any_eq_true.2 ⟨e, List.mem_filter.2 ⟨hscanned, hid⟩, decide_eq_true hne⟩
    refine List.mem_map.2 ⟨_, List.mem_filterMap.2 ⟨aggregateId, ?_, if_pos hany⟩, rfl⟩
    exact List.mem_dedup.2 (List.mem_map.2 ⟨e, hscanned, of_decide_eq_true hid⟩)

theorem nodup_candidateIds : ((tables.candidateRows options scan).map (·.aggregateId)).Nodup := by
  refine List.pairwise_map.2 (List.pairwise_filterMap.2 ((List.nodup_dedup _).imp fun {a b} hne => ?_))
  intro row hrow row' hrow'
  rwa [(candidateRow_eq_some hrow).1, (candidateRow_eq_some hrow').1]

/-- The rows of a query, in any order. -/
theorem readCandidateRows_spec (h : tables.readCandidateRows order options = .ok rows) :
    (rows.map (·.aggregateId)).Nodup ∧
      (∀ row ∈ rows, row.targetTenantId = tables.targetTenantId options row.aggregateId) ∧
      ∃ scan, scannedTenants options = .ok scan ∧
        ∀ aggregateId, aggregateId ∈ rows.map (·.aggregateId) ↔
          ∃ e ∈ tables.eventsOf options.aggregateType aggregateId, scan.all (e.tenantId ∈ ·) ∧
            some e.tenantId ≠ tables.targetTenantId options aggregateId := by
  obtain ⟨scan, hscan, rfl⟩ := readCandidateRows_ok h
  have hperm := order.perm (tables.candidateRows options scan)
  refine ⟨(hperm.map _).nodup_iff.2 nodup_candidateIds, fun row hrow => ?_, scan, hscan, fun aggregateId => ?_⟩
  · exact (candidateRow_eq_some (mem_candidateRows (hperm.mem_iff.1 hrow))).2.1
  · exact (hperm.map _).mem_iff.trans mem_candidateIds

/-- What a run has done: it was skipped, or it went through the rows of the query. -/
theorem backfill_ok (h : tables.backfillAggregateStreamTenants order options = .ok (tables', result)) :
    ∃ rows, tables.readCandidateRows order options = .ok rows ∧
      ((firstCandidate options rows = .ok .skip ∧ tables' = tables ∧ result = ⟨0, 0, []⟩) ∨
        (firstCandidate options rows = .ok .proceed ∧ (tables', result) = tables.moveAll options rows)) := by
  obtain ⟨rows, hrows, h⟩ := exists_of_bind_eq_ok h
  obtain ⟨answer, hanswer, h⟩ := exists_of_bind_eq_ok h
  refine ⟨rows, hrows, ?_⟩
  cases answer with
  | skip =>
    obtain ⟨rfl, rfl⟩ := Prod.mk.inj (Except.ok.inj h)
    exact .inl ⟨hanswer, rfl, rfl⟩
  | proceed => exact .inr ⟨hanswer, (Except.ok.inj h).symm⟩

/-- Where the events of an aggregate keep their order and their ids, its target is the same. -/
theorem targetTenantId_eq (hsearch : options.SameSearch options')
    (hpayload : tables'.payloadTenantId = tables.payloadTenantId)
    (hids : (tables'.eventsOf options.aggregateType aggregateId).map (·.id) =
      (tables.eventsOf options.aggregateType aggregateId).map (·.id)) :
    tables'.targetTenantId options' aggregateId = tables.targetTenantId options aggregateId := by
  unfold targetTenantId
  rw [hsearch.target, hsearch.aggregateType, hpayload]
  split
  · rfl
  · have hhead := congrArg List.head? hids
    rw [List.head?_map, List.head?_map] at hhead
    have hbind := congrArg (·.bind tables.payloadTenantId) hhead
    rwa [Option.bind_map, Option.bind_map] at hbind

theorem MergedInto.ids {tenantId : String} (h : tables.MergedInto tables' options.aggregateType aggregateId tenantId) :
    (tables'.eventsOf options.aggregateType aggregateId).map (·.id) =
      (tables.eventsOf options.aggregateType aggregateId).map (·.id) := by
  rw [h]
  exact List.ext_getElem (by simp) fun i _ _ => by simp

/-- A second query returns an aggregate that the loop has moved only where its target is spelled otherwise, and one that
is not a candidate not at all. -/
theorem MovedAll.failed_of_candidate {again : GroupOrder} {rows' : List BackfillCandidateRow} {failed : List String}
    {target : String} (hall : tables.MovedAll tables' options.aggregateType rows failed)
    (hrows : tables.readCandidateRows order options = .ok rows) (hsearch : options.SameSearch options')
    (hrows' : tables'.readCandidateRows again options' = .ok rows')
    (htarget : tables.targetTenantId options aggregateId = some target) (hcanonical : asUuid target = .ok target)
    (h : aggregateId ∈ rows'.map (·.aggregateId)) : aggregateId ∈ failed := by
  obtain ⟨-, htargets, scan, hscan, hcandidates⟩ := readCandidateRows_spec hrows
  obtain ⟨-, -, scan', hscan', hcandidates'⟩ := readCandidateRows_spec hrows'
  have hsame : scannedTenants options' = scannedTenants options := by
    unfold scannedTenants
    rw [hsearch.scanTenantIds, hsearch.target]
  obtain rfl := Except.ok.inj (hscan'.symm.trans (hsame.trans hscan))
  obtain ⟨e, he, hin, hne⟩ := (hcandidates' aggregateId).1 h
  rw [hsearch.aggregateType] at he
  by_contra hnot
  by_cases hfirst : aggregateId ∈ rows.map (·.aggregateId)
  · obtain ⟨row, hrow, rfl⟩ := List.mem_map.1 hfirst
    obtain ⟨target', tenantId, htarget', hcast, hmerged, -⟩ := hall.moved row hrow hnot
    obtain rfl := Option.some.inj ((htarget'.symm.trans (htargets row hrow)).trans htarget)
    obtain rfl := Except.ok.inj (hcast.symm.trans hcanonical)
    rw [targetTenantId_eq hsearch hall.payload hmerged.ids, htarget] at hne
    rw [hmerged] at he
    obtain ⟨i, hi, rfl⟩ := List.mem_mapIdx.1 he
    exact hne rfl
  · have hevents := eventsOf_of_ofAggregate options.aggregateType (hall.unmoved aggregateId (.inl hfirst))
    rw [targetTenantId_eq hsearch hall.payload (congrArg _ hevents)] at hne
    exact hfirst ((hcandidates aggregateId).2 ⟨e, hevents ▸ he, hin, hne⟩)

end

/-- A run merges the streams that it moves and leaves everything else, apart from archive markers of the aggregates that
it moves. A second run finds, of the aggregates whose target is spelled as the database prints it, only those that the
first could not move. -/
theorem streams_merged (order : GroupOrder) (options : StreamBackfillOptions) (hwf : tables.WF)
    {tables' : BackfillTables S} {result : StreamBackfillResult}
    (h : tables.backfillAggregateStreamTenants order options = .ok (tables', result)) :
    tables.StreamsMerged order options tables' result := by
  obtain ⟨rows, hrows, ⟨hskip, rfl, rfl⟩ | ⟨hproceed, hmoved⟩⟩ := backfill_ok h
  · have hnone : ∀ aggregateId, ¬ tables'.Migrated order options ⟨0, 0, []⟩ aggregateId := by
      rintro aggregateId ⟨rows', hrows', hproceed, -⟩
      obtain rfl := Except.ok.inj (hrows.symm.trans hrows')
      cases hskip.symm.trans hproceed
    exact
      { wf := hwf
        migrated := fun aggregateId h => absurd h (hnone aggregateId)
        unmoved := fun _ _ => rfl
        otherTypes := rfl
        again := fun _ _ _ _ _ _ _ _ _ _ _ => .inr ⟨rows, hrows, hskip⟩ }
  · obtain ⟨hnodup, htarget, scan, hscan, hcandidates⟩ := readCandidateRows_spec hrows
    obtain ⟨failed, hfailed, hall⟩ := moveAll_spec options hwf hnodup ⟨0, 0, []⟩
    rw [← moveAll, ← hmoved] at hfailed hall
    obtain rfl : result.failed = failed := hfailed
    have hmigrated : ∀ aggregateId, tables.Migrated order options result aggregateId ↔
        aggregateId ∈ rows.map (·.aggregateId) ∧ aggregateId ∉ result.failed.map (·.aggregateId) := by
      refine fun aggregateId => ⟨?_, fun h => ⟨rows, hrows, hproceed, h⟩⟩
      rintro ⟨rows', hrows', -, h⟩
      obtain rfl := Except.ok.inj (hrows.symm.trans hrows')
      exact h
    exact
      { wf := hall.wf
        migrated := fun aggregateId h => by
          obtain ⟨hin, hnot⟩ := (hmigrated aggregateId).1 h
          obtain ⟨row, hrow, rfl⟩ := List.mem_map.1 hin
          obtain ⟨target, tenantId, ht, hrest⟩ := hall.moved row hrow hnot
          exact ⟨target, tenantId, (htarget row hrow).symm.trans ht, hrest⟩
        unmoved := fun aggregateId h =>
          hall.unmoved aggregateId (or_iff_not_imp_left.2 fun hin => by
            by_contra hnot
            exact h ((hmigrated aggregateId).2 ⟨not_not.1 hin, hnot⟩))
        otherTypes := hall.otherTypes
        again := fun again options' hsearch tables'' result' _ aggregateId target ht hcanonical hagain => by
          obtain ⟨rows', hrows', -, hin, -⟩ := hagain
          exact .inl (hall.failed_of_candidate hrows hsearch hrows' ht hcanonical hin) }

/-! ### A key that another aggregate frees -/

/-- The rows as they come. -/
def asRead : GroupOrder := ⟨id, fun _ => .refl _⟩

/-- Two memberships with an event each under one idempotency key. The first belongs to the tenant that the second one's
stream is still in. -/
def freedKey : BackfillTables Unit where
  events :=
    [⟨1, 1, "30000000-0000-4000-8000-000000000000", "tenant-membership", "b0000000-0000-4000-8000-000000000000", 1,
        "tenant-membership.created", 0, some "key"⟩,
      ⟨2, 2, "10000000-0000-4000-8000-000000000000", "tenant-membership", "a0000000-0000-4000-8000-000000000000", 1,
        "tenant-membership.created", 0, some "key"⟩]
  payloadTenantId id :=
    if id = 1 then some "10000000-0000-4000-8000-000000000000" else some "20000000-0000-4000-8000-000000000000"
  archived := []
  snapshots := []

def membershipBackfill : StreamBackfillOptions :=
  ⟨"tenant-membership", .payloadTenant, none, none, none, none⟩

theorem wf_freedKey : freedKey.WF := ⟨by decide +kernel, by decide +kernel, List.nodup_nil⟩

theorem streams_merged_freedKey : ∃ tables' result,
    freedKey.backfillAggregateStreamTenants asRead membershipBackfill = .ok (tables', result) ∧
      freedKey.StreamsMerged asRead membershipBackfill tables' result := by
  cases h : freedKey.backfillAggregateStreamTenants asRead membershipBackfill with
  | error e =>
    have hok : (freedKey.backfillAggregateStreamTenants asRead membershipBackfill).isOk = true := by decide +kernel
    rw [h] at hok
    cases hok
  | ok out => exact ⟨out.1, out.2, rfl, streams_merged freedKey asRead membershipBackfill wf_freedKey h⟩

/-- Without a hook the run goes through the rows of the query. -/
theorem backfill_membershipBackfill (tables : BackfillTables Unit) :
    tables.backfillAggregateStreamTenants asRead membershipBackfill =
      .ok (tables.moveAll membershipBackfill (tables.candidateRows membershipBackfill none)) := by
  change (firstCandidate membershipBackfill (tables.candidateRows membershipBackfill none) >>= _) = _
  cases tables.candidateRows membershipBackfill none <;> rfl

/-- The first membership cannot move while the other one holds its key in the target tenant. The other one then leaves,
and a second run moves the first. -/
theorem not_backfillIsMerge : ¬ freedKey.BackfillIsMerge asRead asRead membershipBackfill := by
  intro hclaim
  obtain ⟨-, -, -, -, hagain⟩ := hclaim _ _ (backfill_membershipBackfill freedKey)
  refine hagain _ _ (backfill_membershipBackfill _) "b0000000-0000-4000-8000-000000000000" ⟨_, rfl, rfl, ?_, ?_⟩ <;>
    decide +kernel

end BackfillTables

end Kumiko
